import Ifupdown.Resolver.Wraparound
import Ifupdown.Session.Requests
import Ifupdown.Session.Single

/-! The calls of an `ifup` that finds room for its counts. -/
namespace Ifupdown

def Request.result64 (r : Request) : Bool × World :=
  changeInterface64 r.env r.opts r.before r.iface r.lifname r.up r.updateState

def namedRequests64 (env : Env) (opts : LifExecuteOpts) (up : Bool) : List Str → World → List Request
  | [], _ => []
  | arg :: rest, w =>
    match resolveArgument w arg with
    | none => []
    | some iface =>
      let r : Request := ⟨env, opts, iface, (splitAlias arg).1, up, true, w⟩
      r :: if r.result64.1 then namedRequests64 env opts up rest r.result64.2 else []

def autoRequests64 (env : Env) (opts : LifExecuteOpts) (matchOpts : MatchOptions) (up : Bool) :
    List Str → World → List Request
  | [], _ => []
  | name :: rest, w =>
    if matchOpts.passesOver (w.collection.iface name) then autoRequests64 env opts matchOpts up rest w
    else
      let r : Request := ⟨env, opts, name, (w.collection.iface name).ifname, up, false, w⟩
      r :: autoRequests64 env opts matchOpts up rest r.result64.2

def commandRequests64 (env : Env) (opts : LifExecuteOpts) (cmd : Command) (w : World) : List Request :=
  if cmd.matchOpts.isAuto then
    autoRequests64 env opts cmd.matchOpts cmd.up (lifDictKeys w.collection.entries) w
  else namedRequests64 env opts cmd.up cmd.args w

def runInvocation64 (interfaces : Interfaces) (sys : System) (inv : Invocation) : System :=
  (ifupdownMain64 inv.env inv.opts interfaces inv.command sys).2

def runSession64 (interfaces : Interfaces) (session : List Invocation) (sys : System) : System :=
  session.foldl (runInvocation64 interfaces) sys

def Request.Roomy (r : Request) : Prop := Ifupdown.Roomy (r.before.collection.graph r.opts) r.before.count r.iface

def Request.run (r : Request) : Bool × World := runToEnd r.env r.opts r.before r.iface r.lifname r.up

theorem request_run (r : Request) (up : r.up = true) (pending : r.before.Pending []) :
    lifLifecycleRun r.env r.opts (lifecycleFuel r.before.collection) r.before r.iface r.lifname true = some r.run := by
  rw [← up]
  exact runToEnd_eq pending ..

theorem request_bounded (r : Request) (up : r.up = true) (pending : r.before.Pending []) (roomy : r.Roomy) : r.run.2.Bounded := by
  obtain ⟨ev, run, -⟩ := lifLifecycleRun_up pending (request_run r up pending)
  exact up_roomy roomy run

theorem changeInterface64_eq {w : World} (same : acquireStateLock env opts lifname = true →
      (skipInterface opts w iface lifname up updateState).1 = false →
      runToEnd64 env opts w iface lifname up = runToEnd env opts w iface lifname up) :
    changeInterface64 env opts w iface lifname up updateState = changeInterface env opts w iface lifname up updateState := by
  unfold changeInterface64 changeInterface
  split
  · rfl
  rename_i locked
  rcases skipped : skipInterface opts w iface lifname up updateState with ⟨_ | _, w₀⟩
  · obtain rfl := skipInterface_false skipped
    dsimp only
    have equal := same (by simpa using locked) (by rw [skipped])
    generalize runToEnd64 env opts w₀ iface lifname up = run64 at equal ⊢
    subst equal
    rcases runToEnd env opts w₀ iface lifname up with ⟨_ | _, _⟩ <;> rfl
  · rfl

theorem request64_eq (r : Request) (up : r.up = true) (pending : r.before.Pending []) (bounded : r.Runs → r.run.2.Bounded) :
    r.result64 = r.result := by
  refine changeInterface64_eq fun locked taken => ?_
  have final := request_run r up pending
  cases template : (r.before.collection.iface r.iface).isTemplate with
  | true =>
    have idle : (r.before.collection.iface r.iface).isPending = false := pending r.iface
    rw [runToEnd_template pending template]
    unfold runToEnd64 lifecycleFuel lifLifecycleRun64
    simp only [idle, template, Bool.false_eq_true, if_false, if_true, Option.getD_some]
  | false =>
    have same := (lifLifecycleRun64_agrees _ r.before r.iface r.lifname _ _ final).2 (bounded ⟨locked, taken, template⟩)
    rw [up, runToEnd64, same, Option.getD_some, ← up]
    rfl

theorem request_grows (r : Request) (up : r.up = true) (pending : r.before.Pending []) (x : Str) :
    r.before.count x ≤ r.result.2.count x ∧ (r.Runs → r.result.2.count x = r.run.2.count x) := by
  obtain ⟨stays, -, same⟩ | ⟨marks, same⟩ | ⟨-, ok, w, same, run⟩ := request_cases r pending
  · exact ⟨by rw [same], fun runs => absurd runs stays⟩
  · exact ⟨by rw [same, count_markExplicit], fun runs => absurd (marks.2.1.symm.trans runs.2.1) (by decide)⟩
  · rw [up] at run
    have whole : r.run = (ok, w) := Option.some.inj ((request_run r up pending).symm.trans run)
    obtain ⟨ev, run, -⟩ := lifLifecycleRun_up pending run
    have kept : r.result.2.count = w.count := by
      rw [same]
      dsimp only
      split
      · exact count_markExplicit ..
      · rfl
    exact ⟨by rw [kept]; exact up_mono run x, fun _ => by rw [kept, whole]⟩

theorem namedCommands64_eq {w : World} {args : List Str} (pending : w.Pending [])
    (roomy : ∀ r ∈ namedRequests64 env opts true args w, r.Runs → r.Roomy) :
    namedRequests64 env opts true args w = namedRequests env opts true args w ∧
      changeNamedInterfaces64 env opts true args w = changeNamedInterfaces env opts true args w := by
  induction args generalizing w with
  | nil => exact ⟨rfl, rfl⟩
  | cons arg rest ih =>
    unfold namedRequests64 at roomy ⊢
    unfold namedRequests changeNamedInterfaces64 changeNamedInterfaces
    cases resolved : resolveArgument w arg with
    | none => exact ⟨rfl, rfl⟩
    | some iface =>
      rw [resolved] at roomy
      dsimp only at roomy ⊢
      obtain ⟨head, tail⟩ := List.forall_mem_cons.mp roomy
      have next := request_pending ⟨env, opts, iface, (splitAlias arg).1, true, true, w⟩ pending
      have same := request64_eq ⟨env, opts, iface, (splitAlias arg).1, true, true, w⟩ rfl pending
        fun runs => request_bounded _ rfl pending (head runs)
      rcases result : Request.result ⟨env, opts, iface, (splitAlias arg).1, true, true, w⟩ with ⟨ok, after⟩
      rw [same] at tail ⊢
      rw [result] at next tail same ⊢
      rw [show changeInterface64 env opts w iface (splitAlias arg).1 true true = (ok, after) from same,
        show changeInterface env opts w iface (splitAlias arg).1 true true = (ok, after) from result]
      cases ok with
      | false =>
        rw [if_neg Bool.false_ne_true, if_neg Bool.false_ne_true]
        exact ⟨rfl, rfl⟩
      | true =>
        obtain ⟨calls, final⟩ := ih next tail
        exact ⟨congrArg _ calls, final⟩

theorem autoCommands64_eq {w : World} {names : List Str} (pending : w.Pending [])
    (roomy : ∀ r ∈ autoRequests64 env opts matchOpts true names w, r.Runs → r.Roomy) :
    autoRequests64 env opts matchOpts true names w = autoRequests env opts matchOpts true names w ∧
      changeAutoInterfaces64 env opts matchOpts true names w = changeAutoInterfaces env opts matchOpts true names w := by
  induction names generalizing w with
  | nil => exact ⟨rfl, rfl⟩
  | cons name rest ih =>
    unfold autoRequests64 at roomy ⊢
    unfold autoRequests changeAutoInterfaces64 changeAutoInterfaces
    dsimp only at roomy ⊢
    split
    · rename_i passed
      rw [if_pos passed] at roomy
      exact ih pending roomy
    · rename_i taken
      rw [if_neg taken] at roomy
      obtain ⟨head, tail⟩ := List.forall_mem_cons.mp roomy
      have same := request64_eq ⟨env, opts, name, (w.collection.iface name).ifname, true, false, w⟩ rfl pending
        fun runs => request_bounded _ rfl pending (head runs)
      have next := request_pending ⟨env, opts, name, (w.collection.iface name).ifname, true, false, w⟩ pending
      rcases result : Request.result ⟨env, opts, name, (w.collection.iface name).ifname, true, false, w⟩ with ⟨ok, after⟩
      rw [same] at tail ⊢
      rw [result] at next tail same ⊢
      rw [show changeInterface64 env opts w name (w.collection.iface name).ifname true false = (ok, after) from same,
        show changeInterface env opts w name (w.collection.iface name).ifname true false = (ok, after) from result]
      obtain ⟨calls, final⟩ := ih next tail
      refine ⟨congrArg _ calls, ?_⟩
      dsimp only
      rw [final]

/-- An `ifup` that has room for all of its calls makes the same ones. -/
theorem commands64_eq {w : World} (up : cmd.up = true) (pending : w.Pending [])
    (roomy : ∀ r ∈ commandRequests64 env opts cmd w, r.Runs → r.Roomy) :
    commandRequests64 env opts cmd w = commandRequests env opts cmd w ∧
      changeInterfaces64 env opts cmd w = changeInterfaces env opts cmd w := by
  unfold commandRequests64 at roomy ⊢
  unfold commandRequests changeInterfaces64 changeInterfaces
  rw [up] at roomy ⊢
  split
  · rename_i auto
    rw [if_pos auto] at roomy
    exact autoCommands64_eq pending roomy
  · rename_i named
    rw [if_neg named] at roomy
    exact namedCommands64_eq pending roomy

/-- A call that ends in bounds is the same with bounds. -/
theorem changeInterface64_agrees {w : World} (env : Env) (opts : LifExecuteOpts) (iface lifname : Str) (updateState : Bool)
    (pending : w.Pending []) :
    (∀ x, w.count x ≤ (changeInterface env opts w iface lifname true updateState).2.count x) ∧
      ((changeInterface env opts w iface lifname true updateState).2.Bounded →
        changeInterface64 env opts w iface lifname true updateState = changeInterface env opts w iface lifname true updateState) := by
  have grows := request_grows ⟨env, opts, iface, lifname, true, updateState, w⟩ rfl pending
  refine ⟨fun x => (grows x).1, fun bounded => ?_⟩
  exact request64_eq ⟨env, opts, iface, lifname, true, updateState, w⟩ rfl pending fun runs x =>
    (grows x).2 runs ▸ bounded x

theorem namedCommands64_agrees {w : World} {args : List Str} (pending : w.Pending []) :
    (∀ x, w.count x ≤ (changeNamedInterfaces env opts true args w).2.count x) ∧
      ((changeNamedInterfaces env opts true args w).2.Bounded →
        changeNamedInterfaces64 env opts true args w = changeNamedInterfaces env opts true args w) := by
  induction args generalizing w with
  | nil => exact ⟨fun _ => Nat.le_refl _, fun _ => rfl⟩
  | cons arg rest ih =>
    unfold changeNamedInterfaces64 changeNamedInterfaces
    cases resolveArgument w arg with
    | none => exact ⟨fun _ => Nat.le_refl _, fun _ => rfl⟩
    | some iface =>
      dsimp only
      obtain ⟨grows, same⟩ := changeInterface64_agrees env opts iface (splitAlias arg).1 true pending
      have next := request_pending ⟨env, opts, iface, (splitAlias arg).1, true, true, w⟩ pending
      unfold Request.result at next
      dsimp only at next
      rcases result : changeInterface env opts w iface (splitAlias arg).1 true true with ⟨ok, after⟩
      rw [result] at grows same next
      cases ok with
      | false => exact ⟨grows, fun bounded => by rw [same bounded]⟩
      | true =>
        obtain ⟨later, same'⟩ := ih next
        refine ⟨fun x => (grows x).trans (later x), fun bounded => ?_⟩
        rw [same (bounded.down later)]
        exact same' bounded

theorem autoCommands64_agrees {w : World} {names : List Str} (pending : w.Pending []) :
    (∀ x, w.count x ≤ (changeAutoInterfaces env opts matchOpts true names w).2.count x) ∧
      ((changeAutoInterfaces env opts matchOpts true names w).2.Bounded →
        changeAutoInterfaces64 env opts matchOpts true names w = changeAutoInterfaces env opts matchOpts true names w) := by
  induction names generalizing w with
  | nil => exact ⟨fun _ => Nat.le_refl _, fun _ => rfl⟩
  | cons name rest ih =>
    unfold changeAutoInterfaces64 changeAutoInterfaces
    dsimp only
    split
    · exact ih pending
    · obtain ⟨grows, same⟩ := changeInterface64_agrees env opts name (w.collection.iface name).ifname false pending
      have next := request_pending ⟨env, opts, name, (w.collection.iface name).ifname, true, false, w⟩ pending
      obtain ⟨later, same'⟩ := ih next
      unfold Request.result at later same'
      refine ⟨fun x => (grows x).trans (later x), fun bounded => ?_⟩
      rw [same (bounded.down later), same' bounded]

theorem commands64_agrees (env : Env) (opts : LifExecuteOpts) {w : World} (up : cmd.up = true) (pending : w.Pending []) :
    (∀ x, w.count x ≤ (changeInterfaces env opts cmd w).2.count x) ∧
      ((changeInterfaces env opts cmd w).2.Bounded → changeInterfaces64 env opts cmd w = changeInterfaces env opts cmd w) := by
  unfold changeInterfaces64 changeInterfaces
  rw [up]
  split
  · exact autoCommands64_agrees pending
  · exact namedCommands64_agrees pending

/-- Every count is one that the state file can hold. -/
def System.Small (sys : System) : Prop := ∀ x, sys.refcount x < 2 ^ 64 - 1

theorem System.Small.down {sys sys' : System} (small : sys'.Small) (grows : ∀ x, sys.refcount x ≤ sys'.refcount x) : sys.Small :=
  fun x => Nat.lt_of_le_of_lt (grows x) (small x)

theorem small_entries {sys : System} (small : ∀ entry ∈ sys.saved.records, entry.2.refcount < 2 ^ 64 - 1) : sys.Small := by
  intro x
  unfold System.refcount
  cases found : lifDictFind sys.saved.records x with
  | none => decide
  | some rec => exact small _ (lifDictFind_mem found)

theorem load64_small {sys : System} (sound : sys.saved.Sound) (small : sys.Small) (interfaces : Interfaces) :
    sys.load64 interfaces = sys.load interfaces := by
  have same : sys.saved.records.map (fun entry => (entry.1, entry.2.reread)) = sys.saved.records := by
    refine (List.map_congr_left fun entry member => ?_).trans (List.map_id _)
    have counted := sound.counted entry member
    have found : lifDictFind sys.saved.records entry.1 = some entry.2 := lifDictFind_of_mem sys.saved.distinct member
    have low := small entry.1
    unfold System.refcount at low
    rw [found] at low
    change entry.2.refcount < 2 ^ 64 - 1 at low
    rw [LifStateRecord.reread, readRefcount_decimal ⟨counted, by omega⟩]
    rfl
  unfold System.load64 StateDict.reread
  simp only [same]

theorem main64_agrees (interfaces : Interfaces) {sys : System} {inv : Invocation} (sound : sys.saved.Sound) (plain : inv.Plain)
    (up : inv.command.up = true) (real : inv.opts.mock = false) :
    (runInvocation interfaces sys inv).saved.Sound ∧
      (∀ x, sys.refcount x ≤ (runInvocation interfaces sys inv).refcount x) ∧
      ((runInvocation interfaces sys inv).Small → ifupdownMain64 inv.env inv.opts interfaces inv.command sys =
        ifupdownMain inv.env inv.opts interfaces inv.command sys) := by
  unfold runInvocation ifupdownMain64 ifupdownMain updateStateFileAndExit
  by_cases usage : (!inv.command.matchOpts.isAuto && inv.command.args.isEmpty) = true
  · rw [if_pos usage, if_pos usage]
    exact ⟨sound, fun _ => Nat.le_refl _, fun _ => rfl⟩
  rw [if_neg usage, if_neg usage, real]
  obtain ⟨grows, same⟩ := commands64_agrees inv.env inv.opts up (load_pending sys interfaces)
  rcases result : changeInterfaces inv.env inv.opts inv.command (sys.load interfaces) with ⟨rc, w⟩
  obtain ⟨-, ready, -⟩ := commandCalls_linked plain.1 (load_ready sound interfaces) plain.2 result
  have final : w.save.refcount = w.count := save_refcount ready
  rw [result] at grows same
  rw [load_count sound] at grows
  refine ⟨ready_sound ready, fun x => (grows x).trans_eq (congrFun final x).symm, fun small => ?_⟩
  have small : w.save.Small := small
  have before : sys.Small := small.down fun x => (grows x).trans_eq (congrFun final x).symm
  have bounded : w.Bounded := by
    intro x
    have low := small x
    rw [final] at low
    omega
  rw [load64_small sound before, same bounded]

theorem invocation64_agrees (interfaces : Interfaces) {sys : System} {inv : Invocation} (sound : sys.saved.Sound) (plain : inv.Plain)
    (up : inv.command.up = true) :
    (runInvocation interfaces sys inv).saved.Sound ∧
      (∀ x, sys.refcount x ≤ (runInvocation interfaces sys inv).refcount x) ∧
      ((runInvocation interfaces sys inv).Small → runInvocation64 interfaces sys inv = runInvocation interfaces sys inv) := by
  cases mock : inv.opts.mock with
  | false =>
    obtain ⟨next, grows, same⟩ := main64_agrees interfaces sound plain up mock
    exact ⟨next, grows, fun small => congrArg Prod.snd (same small)⟩
  | true =>
    have dry : runInvocation interfaces sys inv = sys := by
      unfold runInvocation ifupdownMain updateStateFileAndExit
      rw [mock]
      split <;> rfl
    have dry64 : runInvocation64 interfaces sys inv = sys := by
      unfold runInvocation64 ifupdownMain64 updateStateFileAndExit
      rw [mock]
      split <;> rfl
    rw [dry, dry64]
    exact ⟨sound, fun _ => Nat.le_refl _, fun _ => rfl⟩

/-- A session that only brings up is the same with bounds if it ends in them. -/
theorem session64_agrees {session : List Invocation} {sys : System} (sound : sys.saved.Sound)
    (ups : ∀ inv ∈ session, inv.Plain ∧ inv.command.up = true) :
    (∀ x, sys.refcount x ≤ (runSession interfaces session sys).refcount x) ∧
      ((runSession interfaces session sys).Small → runSession64 interfaces session sys = runSession interfaces session sys) := by
  induction session generalizing sys with
  | nil => exact ⟨fun _ => Nat.le_refl _, fun _ => show sys = sys from rfl⟩
  | cons inv rest ih =>
    obtain ⟨⟨plain, up⟩, tail⟩ := List.forall_mem_cons.mp ups
    obtain ⟨next, grows, same⟩ := invocation64_agrees interfaces sound plain up
    obtain ⟨later, same'⟩ := ih next tail
    refine ⟨fun x => (grows x).trans (later x), fun small => ?_⟩
    calc runSession64 interfaces (inv :: rest) sys
        = runSession64 interfaces rest (runInvocation64 interfaces sys inv) := List.foldl_cons ..
      _ = runSession64 interfaces rest (runInvocation interfaces sys inv) := by rw [same (small.down later)]
      _ = runSession interfaces rest (runInvocation interfaces sys inv) := same' small

end Ifupdown
