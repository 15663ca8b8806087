import Ifupdown.Session.Single

/-! Commands with `--force`, which pass over nothing. -/
namespace Ifupdown

variable {interfaces : Interfaces} {sys : System} {env : Env} {opts : LifExecuteOpts} {iface : Str}

theorem skipInterface_forced (force : opts.force = true) (w : World) (iface ifname : Str) (up updateState : Bool) :
    skipInterface opts w iface ifname up updateState = (false, w) := by
  unfold skipInterface
  rw [force]
  dsimp only
  split
  · rfl
  · split
    · rfl
    · rfl

theorem changeInterface_forced (force : opts.force = true) (locked : acquireStateLock env opts lifname = true)
    (w : World) (iface : Str) (up : Bool) :
    changeInterface env opts w iface lifname up true =
      ((runToEnd env opts w iface lifname up).1,
        if (runToEnd env opts w iface lifname up).1 && up then
          (runToEnd env opts w iface lifname up).2.markExplicit lifname iface
        else (runToEnd env opts w iface lifname up).2) := by
  unfold changeInterface
  rw [locked, skipInterface_forced force]
  simp only [Bool.not_true, Bool.false_eq_true, if_false, Bool.and_true]
  rcases runToEnd env opts w iface lifname up with ⟨_ | _, w'⟩
  · rfl
  · rw [Bool.true_and]

theorem ifup_forced (name : Name iface) (able : Able env opts interfaces sys iface) (force : opts.force = true)
    (sound : sys.saved.Sound) :
    ∃ (ok : Bool) (w : World) (ev : List (Event Str)),
      ifupdownMain env opts interfaces (upCommand iface) sys = (ok, w.save) ∧ w.Ready interfaces ∧
      w.trace = sys.trace ++ ev ∧
      Up ((sys.load interfaces).collection.graph opts) [] (.run iface iface) (sys.load interfaces).count ok w.count ev := by
  have ready := load_ready sound interfaces
  have main := single_able name able true
  rw [changeInterface_forced force able.locked] at main
  rcases result : runToEnd env opts (sys.load interfaces) iface iface true with ⟨ok, w⟩
  have follows := runToEnd_up ready.pending result
  have after := follows_up_ready ready name.short follows
  have counted : ok = true → 0 < w.count iface := by
    rintro rfl
    exact follows_up_counted follows
  obtain ⟨ev, run, evolves⟩ := follows
  rw [result] at main
  cases ok with
  | false => exact ⟨false, w, ev, main, after, evolves.trace, run⟩
  | true =>
    refine ⟨true, w.markExplicit iface iface, ev, main, markExplicit_ready after (counted rfl), evolves.trace, ?_⟩
    rw [count_markExplicit]
    exact run

theorem ifdown_forced (name : Name iface) (able : Able env opts interfaces sys iface) (force : opts.force = true)
    (sound : sys.saved.Sound) :
    ∃ (ok : Bool) (w : World) (ev : List (Event Str)),
      ifupdownMain env opts interfaces (downCommand iface) sys = (ok, w.save) ∧ w.Ready interfaces ∧
      w.trace = sys.trace ++ ev ∧
      Down ((sys.load interfaces).collection.graph opts) [] (.run iface iface) (sys.load interfaces).count ok w.count ev := by
  have ready := load_ready sound interfaces
  have main := single_able name able false
  rw [changeInterface_forced force able.locked] at main
  rcases result : runToEnd env opts (sys.load interfaces) iface iface false with ⟨ok, w⟩
  have final := runToEnd_eq ready.pending env opts iface iface false
  rw [result] at final
  obtain ⟨ev, run, evolves⟩ := lifLifecycleRun_down ready.pending final
  have follows : Follows Down opts True [] (.run iface iface) (sys.load interfaces) ok w :=
    ⟨ev, run, evolves.imp fun _ => rfl⟩
  rw [result, Bool.and_false, if_neg Bool.false_ne_true] at main
  exact ⟨ok, w, ev, main, follows_down_ready ready follows, evolves.trace, run⟩

def Succeeds (interfaces : Interfaces) : List Invocation → System → Prop
  | [], _ => True
  | inv :: rest, sys =>
    (ifupdownMain inv.env inv.opts interfaces inv.command sys).1 = true ∧
      Succeeds interfaces rest (runInvocation interfaces sys inv)

instance (interfaces : Interfaces) : (session : List Invocation) → (sys : System) →
    Decidable (Succeeds interfaces session sys)
  | [], _ => isTrue trivial
  | inv :: rest, sys =>
    have : Decidable (Succeeds interfaces rest (runInvocation interfaces sys inv)) :=
      instDecidableSucceeds interfaces rest (runInvocation interfaces sys inv)
    inferInstanceAs (Decidable (_ ∧ _))

def Invocation.Forces (inv : Invocation) (iface : Str) : Prop :=
  inv.opts.force = true ∧ inv.command = upCommand iface

theorem ifupdownMain_mock (mock : opts.mock = true) (cmd : Command) :
    (ifupdownMain env opts interfaces cmd sys).2 = sys := by
  unfold ifupdownMain updateStateFileAndExit
  split
  · rfl
  · rfl

theorem forced_up_step {inv : Invocation} (name : Name iface) (forces : inv.Forces iface) (sound : sys.saved.Sound)
    (real : inv.opts.mock = false)
    (success : (ifupdownMain inv.env inv.opts interfaces inv.command sys).1 = true) :
    (runInvocation interfaces sys inv).saved.Sound ∧
      (∀ x, sys.refcount x ≤ (runInvocation interfaces sys inv).refcount x) ∧
      sys.refcount iface < (runInvocation interfaces sys inv).refcount iface := by
  obtain ⟨force, command⟩ := forces
  rw [command] at success
  have able : Able inv.env inv.opts interfaces sys iface := able_of_success name sound real success
  obtain ⟨ok, w, ev, main, after, -, run⟩ := ifup_forced name able force sound
  obtain rfl : ok = true := by
    rw [main] at success
    exact success
  have sound' : w.save.saved.Sound := ready_sound after
  rw [runInvocation, command, main]
  dsimp only
  rw [save_refcount after, ← load_count sound interfaces]
  have grown := up_counts run rfl iface
  rw [if_pos ((up_run_true run).resolve_left List.not_mem_nil)] at grown
  exact ⟨sound', up_mono run, by omega⟩

/-- Forced bring-ups never lower a count, and raise that of their interface unless all of
them are dry runs. -/
theorem forced_up_run {session : List Invocation} (name : Name iface) (forces : ∀ inv ∈ session, inv.Forces iface)
    (sound : sys.saved.Sound) (success : Succeeds interfaces session sys) :
    (runSession interfaces session sys).saved.Sound ∧
      (∀ x, sys.refcount x ≤ (runSession interfaces session sys).refcount x) ∧
      ((∀ inv ∈ session, inv.opts.mock = true) ∧ runSession interfaces session sys = sys ∨
        (∃ inv ∈ session, inv.opts.mock = false) ∧
          sys.refcount iface < (runSession interfaces session sys).refcount iface) := by
  induction session generalizing sys with
  | nil => exact ⟨sound, fun _ => Nat.le_refl _, Or.inl ⟨by simp, rfl⟩⟩
  | cons inv rest ih =>
    obtain ⟨head, tail⟩ := List.forall_mem_cons.mp forces
    obtain ⟨first, later⟩ := success
    rw [show runSession interfaces (inv :: rest) sys =
      runSession interfaces rest (runInvocation interfaces sys inv) from rfl]
    cases mock : inv.opts.mock with
    | true =>
      rw [show runInvocation interfaces sys inv = sys from ifupdownMain_mock mock inv.command] at later ⊢
      obtain ⟨sound', low, outcome⟩ := ih tail sound later
      refine ⟨sound', low, outcome.imp ?_ ?_⟩
      · intro ⟨dry, same⟩
        exact ⟨List.forall_mem_cons.mpr ⟨mock, dry⟩, same⟩
      · intro ⟨⟨other, member, real⟩, more⟩
        exact ⟨⟨other, List.mem_cons_of_mem _ member, real⟩, more⟩
    | false =>
      obtain ⟨sound₁, low₁, more₁⟩ := forced_up_step name head sound mock first
      obtain ⟨sound', low, -⟩ := ih tail sound₁ later
      exact ⟨sound', fun x => (low₁ x).trans (low x),
        Or.inr ⟨⟨inv, List.mem_cons_self, mock⟩, more₁.trans_le (low iface)⟩⟩

end Ifupdown
