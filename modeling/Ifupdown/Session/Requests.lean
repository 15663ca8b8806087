import Ifupdown.Resolver.Ledger
import Ifupdown.Session.BringUps

/-! The calls of `change_interface` that a command makes, under whatever names and with whatever
options, and what they write to the books. -/
namespace Ifupdown

structure Request where
  env : Env
  opts : LifExecuteOpts
  iface : Str
  lifname : Str
  up : Bool
  updateState : Bool
  before : World

def Request.result (r : Request) : Bool × World :=
  changeInterface r.env r.opts r.before r.iface r.lifname r.up r.updateState

/-- The call gets as far as `lif_lifecycle_run`. -/
def Request.Runs (r : Request) : Prop :=
  acquireStateLock r.env r.opts r.lifname = true ∧
    (skipInterface r.opts r.before r.iface r.lifname r.up r.updateState).1 = false ∧
    (r.before.collection.iface r.iface).isTemplate = false

/-- The call finds the interface up and marks it explicit. -/
def Request.Marks (r : Request) : Prop :=
  acquireStateLock r.env r.opts r.lifname = true ∧
    (skipInterface r.opts r.before r.iface r.lifname r.up r.updateState).1 = true ∧
    (r.before.collection.iface r.iface).hasConfigError = false ∧ r.up = true ∧ r.updateState = true

def namedRequests (env : Env) (opts : LifExecuteOpts) (up : Bool) : List Str → World → List Request
  | [], _ => []
  | arg :: rest, w =>
    match resolveArgument w arg with
    | none => []
    | some iface =>
      let r : Request := ⟨env, opts, iface, (splitAlias arg).1, up, true, w⟩
      r :: if r.result.1 then namedRequests env opts up rest r.result.2 else []

def autoRequests (env : Env) (opts : LifExecuteOpts) (matchOpts : MatchOptions) (up : Bool) :
    List Str → World → List Request
  | [], _ => []
  | name :: rest, w =>
    if matchOpts.passesOver (w.collection.iface name) then autoRequests env opts matchOpts up rest w
    else
      let r : Request := ⟨env, opts, name, (w.collection.iface name).ifname, up, false, w⟩
      r :: autoRequests env opts matchOpts up rest r.result.2

def commandRequests (env : Env) (opts : LifExecuteOpts) (cmd : Command) (w : World) : List Request :=
  if cmd.matchOpts.isAuto then
    autoRequests env opts cmd.matchOpts cmd.up (lifDictKeys w.collection.entries) w
  else namedRequests env opts cmd.up cmd.args w

def sessionRequests (interfaces : Interfaces) : List Invocation → System → List Request
  | [], _ => []
  | inv :: rest, sys =>
    (if inv.opts.mock then [] else commandRequests inv.env inv.opts inv.command (sys.load interfaces)) ++
      sessionRequests interfaces rest (runInvocation interfaces sys inv)

theorem sessionRequests_append (interfaces : Interfaces) (first later : List Invocation) (sys : System) :
    sessionRequests interfaces (first ++ later) sys =
      sessionRequests interfaces first sys ++ sessionRequests interfaces later (runSession interfaces first sys) := by
  induction first generalizing sys with
  | nil => rfl
  | cons inv rest ih =>
    rw [List.cons_append, sessionRequests, sessionRequests, ih, List.append_assoc]
    rfl

theorem runInvocation_saved {inv : Invocation} (real : inv.opts.mock = false) (interfaces : Interfaces) (sys : System) :
    (runInvocation interfaces sys inv).saved =
      (changeInterfaces inv.env inv.opts inv.command (sys.load interfaces)).2.state := by
  unfold runInvocation ifupdownMain updateStateFileAndExit
  split
  · rename_i usage
    simp only [Bool.and_eq_true, Bool.not_eq_true', List.isEmpty_iff] at usage
    unfold changeInterfaces
    rw [usage.1, usage.2]
    rfl
  · simp only [real, Bool.false_eq_true, if_false]

/-- The rule for a command: what each of its calls preserves, the command preserves. -/
theorem command_invariant {p : World → Prop} {w : World}
    (step : ∀ r ∈ commandRequests env opts cmd w, p r.before → p r.result.2) (start : p w) :
    p (changeInterfaces env opts cmd w).2 := by
  unfold commandRequests at step
  unfold changeInterfaces
  split
  · rename_i auto
    rw [if_pos auto] at step
    generalize lifDictKeys w.collection.entries = names at step
    induction names generalizing w with
    | nil => exact start
    | cons name rest ih =>
      unfold autoRequests at step
      unfold changeAutoInterfaces
      dsimp only at step ⊢
      split
      · rename_i passed
        rw [if_pos passed] at step
        exact ih start step
      · rename_i taken
        rw [if_neg taken] at step
        obtain ⟨head, tail⟩ := List.forall_mem_cons.mp step
        exact ih (head start) tail
  · rename_i named
    rw [if_neg named] at step
    generalize cmd.args = args at step
    induction args generalizing w with
    | nil => exact start
    | cons arg rest ih =>
      unfold namedRequests at step
      unfold changeNamedInterfaces
      split
      · exact start
      · rename_i iface resolved
        rw [resolved] at step
        obtain ⟨head, tail⟩ := List.forall_mem_cons.mp step
        rcases result : changeInterface env opts w iface (splitAlias arg).1 cmd.up true with ⟨ok, after⟩
        simp only [Request.result, result] at head tail
        cases ok with
        | true => exact ih (head start) tail
        | false => exact head start

theorem commandRequests_made {p : World → Prop} {w : World} (step : ∀ r : Request, p r.before → p r.result.2)
    (start : p w) : ∀ r ∈ commandRequests env opts cmd w, r.up = cmd.up ∧ p r.before := by
  unfold commandRequests
  split
  · generalize lifDictKeys w.collection.entries = names
    induction names generalizing w with
    | nil => simp [autoRequests]
    | cons name rest ih =>
      unfold autoRequests
      split
      · exact ih start
      · exact List.forall_mem_cons.mpr ⟨⟨rfl, start⟩, ih (step _ start)⟩
  · generalize cmd.args = args
    induction args generalizing w with
    | nil => simp [namedRequests]
    | cons arg rest ih =>
      unfold namedRequests
      split
      · simp
      · refine List.forall_mem_cons.mpr ⟨⟨rfl, start⟩, ?_⟩
        split
        · exact ih (step _ start)
        · simp

theorem skipInterface_marks {w w' : World} {skip : Bool}
    (h : skipInterface opts w iface ifname up updateState = (skip, w')) :
    w' = if skip = true ∧ (w.collection.iface iface).hasConfigError = false ∧ up = true ∧ updateState = true
      then w.markExplicit ifname iface else w := by
  unfold skipInterface at h
  dsimp only at h
  repeat' split at h
  all_goals
    obtain ⟨rfl, rfl⟩ := Prod.mk.inj h
    simp_all

theorem changeInterface_skipped {w w' : World} (locked : acquireStateLock env opts lifname = true)
    (skipped : skipInterface opts w iface lifname up updateState = (true, w')) :
    changeInterface env opts w iface lifname up updateState = (true, w') := by
  unfold changeInterface
  simp only [locked, skipped, Bool.not_true, Bool.false_eq_true, if_false]

theorem changeInterface_taken {w w₁ : World} (locked : acquireStateLock env opts lifname = true)
    (taken : (skipInterface opts w iface lifname up updateState).1 = false)
    (result : runToEnd env opts w iface lifname up = (ok, w₁)) :
    changeInterface env opts w iface lifname up updateState =
      (ok, if ok && up && updateState then w₁.markExplicit lifname iface else w₁) := by
  rcases skipped : skipInterface opts w iface lifname up updateState with ⟨skip, w₀⟩
  obtain rfl : skip = false := by rwa [skipped] at taken
  obtain rfl := skipInterface_false skipped
  unfold changeInterface
  simp only [locked, skipped, result, Bool.not_true, Bool.false_eq_true, if_false]
  cases ok <;> rfl

theorem pending_markExplicit {w : World} (pending : w.Pending path) (ifname iface : Str) :
    (w.markExplicit ifname iface).Pending path := by
  intro x
  have before := pending x
  simp only [World.markExplicit, iface_setExplicit]
  split <;> exact before

/-- What a call does, by whether it runs, marks, or neither. -/
theorem request_cases (r : Request) (pending : r.before.Pending []) :
    (¬ r.Runs ∧ ¬ r.Marks ∧ r.result.2 = r.before) ∨
    (r.Marks ∧ r.result.2 = r.before.markExplicit r.lifname r.iface) ∨
    (r.Runs ∧ ∃ ok w,
      r.result = (ok, if ok && r.up && r.updateState then w.markExplicit r.lifname r.iface else w) ∧
      lifLifecycleRun r.env r.opts (lifecycleFuel r.before.collection) r.before r.iface r.lifname r.up = some (ok, w)) := by
  cases locked : acquireStateLock r.env r.opts r.lifname with
  | false =>
    refine Or.inl ⟨?_, ?_, ?_⟩
    · intro runs
      exact absurd runs.1 (by simp [locked])
    · intro marks
      exact absurd marks.1 (by simp [locked])
    · simp [Request.result, changeInterface, locked]
  | true =>
    rcases skipped : skipInterface r.opts r.before r.iface r.lifname r.up r.updateState with ⟨skip, w₀⟩
    cases skip with
    | true =>
      have marks := skipInterface_marks skipped
      have result : r.result = (true, w₀) := changeInterface_skipped locked skipped
      have stays : ¬ r.Runs := fun runs => absurd runs.2.1 (by simp [skipped])
      split at marks
      · rename_i marked
        exact Or.inr (Or.inl ⟨⟨locked, by rw [skipped], marked.2⟩, by rw [result, marks]⟩)
      · rename_i unmarked
        exact Or.inl ⟨stays, fun marked => unmarked ⟨rfl, marked.2.2⟩, by rw [result, marks]⟩
    | false =>
      have taken : (skipInterface r.opts r.before r.iface r.lifname r.up r.updateState).1 = false := by rw [skipped]
      rcases result : runToEnd r.env r.opts r.before r.iface r.lifname r.up with ⟨ok, w⟩
      have whole : r.result = _ := changeInterface_taken locked taken result
      have final := runToEnd_eq pending r.env r.opts r.iface r.lifname r.up
      rw [result] at final
      cases template : (r.before.collection.iface r.iface).isTemplate with
      | true =>
        rw [runToEnd_template pending template] at result
        cases result
        refine Or.inl ⟨fun runs => ?_, fun marks => ?_, by rw [whole]; rfl⟩
        · exact absurd runs.2.2 (by simp [template])
        · exact absurd marks.2.1 (by simp [taken])
      | false => exact Or.inr (Or.inr ⟨⟨locked, taken, template⟩, ok, w, whole, final⟩)

theorem request_pending (r : Request) (pending : r.before.Pending []) : r.result.2.Pending [] := by
  obtain ⟨-, -, same⟩ | ⟨-, same⟩ | ⟨-, ok, w, same, run⟩ := request_cases r pending
  · rwa [same]
  · rw [same]
    exact pending_markExplicit pending _ _
  · obtain ⟨ev, evolves⟩ := lifLifecycleRun_follows pending run
    rw [same]
    dsimp only
    split
    · exact pending_markExplicit evolves.pending _ _
    · exact evolves.pending

/-- The records that a call can write: `k` for the interface `x`. Going down, it finds no count to
lower where there is none. -/
def Request.Writes (r : Request) (k x : Str) : Prop :=
  r.Marks ∧ k = r.lifname ∧ x = r.iface ∨
    r.Runs ∧ (r.up = true ∨ 0 < r.before.count x) ∧
      (k = r.lifname ∧ x = r.iface ∨
        k = x ∧ Posted (r.before.collection.graph r.opts) r.up r.before.count r.iface x)

theorem Request.Marks.counted {r : Request} (marks : r.Marks) : 0 < r.before.count r.iface := by
  obtain ⟨-, skipped, usable, up, -⟩ := marks
  unfold skipInterface at skipped
  dsimp only at skipped
  repeat' split at skipped
  all_goals simp_all [World.count]

theorem request_invariant {p : Books → Prop} (r : Request) (pending : r.before.Pending [])
    (post : ∀ books k x, r.Writes k x → p books → p (books.post r.up (k, x)))
    (mark : ∀ books, r.Writes r.lifname r.iface → 0 < books.count r.iface → p books → p (books.mark r.lifname r.iface))
    (start : p r.before.books) : p r.result.2.books := by
  obtain ⟨-, -, same⟩ | ⟨marks, same⟩ | ⟨runs, ok, w, same, run⟩ := request_cases r pending
  · rwa [same]
  · rw [same, books_markExplicit]
    exact mark _ (Or.inl ⟨marks, rfl, rfl⟩) marks.counted start
  · obtain ⟨names, books, posted⟩ := lifLifecycleRun_posts pending rfl (fun _ _ => Nat.le_refl _) run
    have entries : ∀ entry ∈ names.map (fun d => (d, d)) ++ ownEntry [] r.iface r.lifname ok,
        r.up = true ∨ 0 < r.before.count entry.2 → r.Writes entry.1 entry.2 := by
      intro entry member counted
      refine Or.inr ⟨runs, counted, ?_⟩
      rcases List.mem_append.mp member with dependency | own
      · obtain ⟨d, listed, rfl⟩ := List.mem_map.mp dependency
        exact Or.inr ⟨rfl, posted d listed⟩
      · unfold ownEntry at own
        split at own
        · rw [List.mem_singleton.mp own]
          exact Or.inl ⟨rfl, rfl⟩
        · cases own
    have after : p w.books := by
      rw [books]
      exact foldl_post_invariant (fun _ _ => Nat.le_refl _)
        (fun books entry member counted => post books entry.1 entry.2 (entries entry member counted)) start
    rw [same]
    dsimp only
    split
    · rename_i marked
      simp only [Bool.and_eq_true] at marked
      obtain ⟨⟨rfl, up⟩, -⟩ := marked
      rw [books_markExplicit]
      have counted : 0 < w.books.count r.iface := by
        rw [books, up, ownEntry, if_pos ⟨rfl, List.not_mem_nil⟩, List.foldl_append]
        show 0 < ref _ r.iface r.iface
        rw [ref_self]
        omega
      exact mark _ (Or.inr ⟨runs, Or.inl up, Or.inl ⟨rfl, rfl⟩⟩) counted after
    · exact after

end Ifupdown
