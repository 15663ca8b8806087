import Ifupdown.Session.Stanzas
import Ifupdown.Session.Wraparound

/-! Dependencies come up before their dependents in one run of `ifup`. -/
namespace Ifupdown

open Successors

def World.Truthful (w : World) : Prop := ∀ x, 0 < w.count x → x ∈ configured ∅ w.trace

/-- No interface that the call goes through requires one that is counted but not configured. -/
def Request.Supplied (r : Request) : Prop :=
  let G := r.before.collection.graph r.opts
  ∀ i, Relation.ReflTransGen (FreeEdge G r.before.count) r.iface i →
    ∀ d ∈ G.req i, 0 < r.before.count d → d ∈ configured ∅ r.before.trace

/-- The dependencies of an interface are configured when it starts to come up. -/
def Ordered (req : Str → List Str) (before : List (Event Str)) (pre : List (Event Str)) (event : Event Str) :
    Prop :=
  ∀ i lifname, event = .started i lifname .create → ∀ d ∈ req i, d ∈ configured ∅ (before ++ pre)

theorem truthful_supplied {r : Request} (truthful : r.before.Truthful) : r.Supplied :=
  fun _ _ d _ counted => truthful d counted

theorem rises_truthful {w w' : World} (rises : Rises opts iface w true w') (truthful : w.Truthful) :
    w'.Truthful := by
  intro x counted
  rcases rises with ⟨trace, same⟩ | ⟨lifname, ev, trace, run⟩
  · rw [trace]
    rw [same] at counted
    exact truthful x counted
  · rw [trace, configured_append, up_configured run]
    rcases up_counted run rfl counted with before | up | waits
    · exact Finset.mem_union_left _ (truthful x before)
    · exact Finset.mem_union_right _ up
    · cases waits

theorem request_ordered {r : Request} {req : Str → List Str} (up : r.up = true) (pending : r.before.Pending [])
    (same : (r.before.collection.graph r.opts).req = req) (acyclic : Acyclic req) (supplied : r.Runs → r.Supplied) :
    ∃ ev, r.result.2.trace = r.before.trace ++ ev ∧ AtEach (Ordered req r.before.trace) ev := by
  subst same
  obtain ⟨-, -, result⟩ | ⟨-, result⟩ | ⟨runs, ok, w, result, run⟩ := request_cases r pending
  · exact ⟨[], by rw [result, List.append_nil], AtEach.nil⟩
  · exact ⟨[], by rw [result, List.append_nil]; rfl, AtEach.nil⟩
  rw [up] at run
  obtain ⟨ev, run, evolves⟩ := lifLifecycleRun_up pending run
  have trace : r.result.2.trace = w.trace := by
    rw [result]
    dsimp only
    split <;> rfl
  refine ⟨ev, trace.trans evolves.trace, ?_⟩
  intro pre event post split i l start d edge
  have quiet : completed .destroy pre = [] := by
    have none := up_no_destroy run
    rw [split, completed_append] at none
    exact (List.append_eq_nil_iff.mp none).1
  rw [configured_append, configured_of_no_downs _ quiet]
  rcases up_ordered acyclic run leads_nil pre event post split i l start d edge with counted | up
  · apply Finset.mem_union_left
    apply supplied runs i _ d edge counted
    apply up_within run (b := r.before.count)
      (s := {j | Relation.ReflTransGen (FreeEdge (r.before.collection.graph r.opts) r.before.count) r.iface j})
      _ (fun _ => Nat.le_refl _) _ (by simp [Task.rest]) .create
    · apply mem_starts (l := l)
      rw [split, ← start]
      exact List.mem_append_right _ List.mem_cons_self
    · intro k walk d edge zero
      exact walk.tail ⟨edge, zero⟩
    · rintro k ⟨⟩
      exact .refl
  · exact Finset.mem_union_right _ up

theorem ordered_trans {req : Str → List Str} {w w' : World} {before : List (Event Str)}
    (first : ∃ ev, w.trace = before ++ ev ∧ AtEach (Ordered req before) ev)
    (second : ∃ ev, w'.trace = w.trace ++ ev ∧ AtEach (Ordered req w.trace) ev) :
    ∃ ev, w'.trace = before ++ ev ∧ AtEach (Ordered req before) ev := by
  obtain ⟨ev, trace, ordered⟩ := first
  obtain ⟨ev', trace', ordered'⟩ := second
  refine ⟨ev ++ ev', by rw [trace', trace, List.append_assoc], AtEach.append.mpr ⟨ordered, ?_⟩⟩
  refine ordered'.mono fun pre event supplied i lifname start d edge => ?_
  have configured := supplied i lifname start d edge
  rwa [trace, List.append_assoc] at configured

theorem request_idle {r : Request} (up : r.up = true) (idle : r.before.Idle interfaces) :
    Rises r.opts r.iface r.before r.result.1 r.result.2 ∧ r.result.2.Idle interfaces := by
  have result : changeInterface r.env r.opts r.before r.iface r.lifname true r.updateState = r.result := by
    rw [← up]
    rfl
  exact changeInterface_rises idle result

/-- The calls of an `ifup` with names all start from counts that tell the truth: the first
one that fails is the last. -/
theorem namedRequests_truthful {w : World} (idle : w.Idle interfaces) (truthful : w.Truthful) :
    ∀ r ∈ namedRequests env opts true args w, r.before.Truthful := by
  induction args generalizing w with
  | nil => simp [namedRequests]
  | cons arg rest ih =>
    unfold namedRequests
    cases resolveArgument w arg with
    | none => simp
    | some iface =>
      dsimp only
      obtain ⟨rises, next⟩ := request_idle (r := ⟨env, opts, iface, (splitAlias arg).1, true, true, w⟩) rfl idle
      intro call member
      rcases List.mem_cons.mp member with rfl | later
      · exact truthful
      · split at later
        · rename_i succeeded
          rw [succeeded] at rises
          exact ih next (rises_truthful rises truthful) call later
        · cases later

theorem autoRequests_truthful {w : World} (idle : w.Idle interfaces) (truthful : w.Truthful)
    (succeed : ∀ r ∈ autoRequests env opts matchOpts true names w, r.result.1 = true) :
    ∀ r ∈ autoRequests env opts matchOpts true names w, r.before.Truthful := by
  induction names generalizing w with
  | nil => simp [autoRequests]
  | cons name rest ih =>
    unfold autoRequests at succeed ⊢
    split
    · rename_i passed
      rw [if_pos passed] at succeed
      exact ih idle truthful succeed
    · rename_i taken
      rw [if_neg taken] at succeed
      obtain ⟨head, tail⟩ := List.forall_mem_cons.mp succeed
      obtain ⟨rises, next⟩ := request_idle (r := ⟨env, opts, name, (w.collection.iface name).ifname, true, false, w⟩) rfl idle
      rw [head] at rises
      exact List.forall_mem_cons.mpr ⟨truthful, ih next (rises_truthful rises truthful) tail⟩

/-- During an `ifup`, an interface starts to come up when all interfaces that it requires are
configured, if the counts have room and `ifup -a` leaves the dependents of those that failed alone. -/
theorem dependencies_first (env : Env) (opts : LifExecuteOpts) (interfaces : Interfaces) (sys : System)
    (cmd : Command) (up : cmd.up = true)
    (acyclic : Acyclic fun i => requireIfs (interfaces.collection.iface i)) (sane : interfaces.Sane)
    (recorded : ∀ x, 0 < (sys.load64 interfaces).count x ↔ x ∈ configured ∅ sys.trace)
    (steps : ∀ r ∈ commandRequests64 env opts cmd (sys.load64 interfaces), r.Runs →
      r.Roomy ∧ (cmd.matchOpts.isAuto = true → r.Supplied)) :
    ∃ ev, (ifupdownMain64 env opts interfaces cmd sys).2.trace = sys.trace ++ ev ∧
      AtEach (fun pre event => ∀ i lifname, event = .started i lifname .create →
        ∀ d ∈ requireIfs (interfaces.collection.iface i), d ∈ configured ∅ (sys.trace ++ pre)) ev := by
  have idle : (sys.load64 interfaces).Idle interfaces := load_idle _ interfaces
  obtain ⟨calls, result⟩ := commands64_eq up idle.pending fun r member runs => (steps r member runs).1
  rw [calls] at steps
  unfold ifupdownMain64 updateStateFileAndExit
  rw [result]
  split
  · exact ⟨[], (List.append_nil _).symm, AtEach.nil⟩
  dsimp only
  split
  · exact ⟨[], (List.append_nil _).symm, AtEach.nil⟩
  suffices ordered : (changeInterfaces env opts cmd (sys.load64 interfaces)).2.Idle interfaces ∧
      ∃ ev, (changeInterfaces env opts cmd (sys.load64 interfaces)).2.trace = sys.trace ++ ev ∧
        AtEach (Ordered (fun i => requireIfs (interfaces.collection.iface i)) sys.trace) ev from ordered.2
  refine command_invariant (p := fun w => w.Idle interfaces ∧ ∃ ev, w.trace = sys.trace ++ ev ∧
    AtEach (Ordered (fun i => requireIfs (interfaces.collection.iface i)) sys.trace) ev) ?_
    ⟨idle, [], (List.append_nil _).symm, AtEach.nil⟩
  rintro r member ⟨steady, before⟩
  have rises : r.up = true := (commandRequests_made (p := fun _ => True) (fun _ _ => trivial) trivial r member).1.trans up
  refine ⟨(request_idle rises steady).2, ordered_trans before (request_ordered rises steady.pending ?_ acyclic ?_)⟩
  · rw [stanza_req steady.stanza, sane_req sane]
  · intro runs
    by_cases auto : cmd.matchOpts.isAuto = true
    · exact (steps r member runs).2 auto
    · unfold commandRequests at member
      rw [if_neg auto, up] at member
      apply truthful_supplied
      exact namedRequests_truthful idle (fun x => (recorded x).mp) r member

theorem fresh_recorded (interfaces : Interfaces) (x : Str) :
    0 < (freshSystem.load interfaces).count x ↔ x ∈ configured ∅ freshSystem.trace := by
  rw [load_count sound_empty]
  exact iff_of_false (Nat.lt_irrefl 0) (Finset.notMem_empty x)

def ifupAuto : Command := { up := true, matchOpts := { isAuto := true } }

def sharedPort : Interfaces := fork.autoLines

theorem dependencies_first_sharedPort :
    ∃ ev, (ifupdownMain64 calm {} sharedPort ifupAuto freshSystem).2.trace = freshSystem.trace ++ ev ∧
      AtEach (fun pre event => ∀ i lifname, event = .started i lifname .create →
        ∀ d ∈ requireIfs (sharedPort.collection.iface i), d ∈ configured ∅ (freshSystem.trace ++ pre)) ev := by
  have idle : (freshSystem.load64 sharedPort).Idle sharedPort := load_idle freshSystem sharedPort
  have roomy : ∀ r ∈ commandRequests64 calm {} ifupAuto (freshSystem.load64 sharedPort), r.Roomy := fun r member =>
    spacious_roomy ((by decide : ∀ r ∈ commandRequests64 calm {} ifupAuto (freshSystem.load64 sharedPort),
      r.before.Spacious r.opts) r member) r.iface
  apply dependencies_first calm {} sharedPort freshSystem ifupAuto rfl
    (acyclic_stanzas [str "tun0", str "tun1", str "eth0"] (by decide)) (autoLines_sane interfacesFile_sane)
    (fresh_recorded sharedPort)
  intro r member runs
  refine ⟨roomy r member, fun _ => truthful_supplied ?_⟩
  rw [(commands64_eq rfl idle.pending fun r member _ => roomy r member).1] at member
  exact autoRequests_truthful idle (fun x => (fresh_recorded sharedPort x).mp) (by decide) r member

/-- `tun0` and `tun1` both need `eth0`, which cannot be brought up. -/
def lostPort : Interfaces :=
  (interfacesFile [(str "tun0", [(str "requires", str "eth0")]), (str "tun1", [(str "requires", str "eth0")]),
    (str "eth0", [(str "up", str "fail")])] (by decide) (by decide) (by decide)).autoLines

theorem dependencies_not_first :
    ¬ ∀ (env : Env) (opts : LifExecuteOpts) (interfaces : Interfaces) (sys : System) (cmd : Command),
      cmd.up = true → (Acyclic fun i => requireIfs (interfaces.collection.iface i)) → interfaces.Sane →
      (∀ x, 0 < (sys.load64 interfaces).count x ↔ x ∈ configured ∅ sys.trace) →
      ∃ ev, (ifupdownMain64 env opts interfaces cmd sys).2.trace = sys.trace ++ ev ∧
        AtEach (fun pre event => ∀ i lifname, event = .started i lifname .create →
          ∀ d ∈ requireIfs (interfaces.collection.iface i), d ∈ configured ∅ (sys.trace ++ pre)) ev := by
  intro claim
  obtain ⟨ev, trace, ordered⟩ := claim calm {} lostPort freshSystem ifupAuto rfl
    (acyclic_stanzas [str "tun0", str "tun1", str "eth0"] (by decide)) (autoLines_sane interfacesFile_sane)
    (fresh_recorded lostPort)
  -- `eth0` starts and finishes three phases, then `tun1` starts its first
  have split : ev = ev.take 6 ++ .started (str "tun1") (str "tun1") .create :: ev.drop 7 := by
    rw [show ev = (ifupdownMain64 calm {} lostPort ifupAuto freshSystem).2.trace from trace.symm]
    decide
  have up := ordered _ _ _ split (str "tun1") (str "tun1") rfl (str "eth0") (by decide)
  rw [show ev = (ifupdownMain64 calm {} lostPort ifupAuto freshSystem).2.trace from trace.symm] at up
  revert up
  decide

end Ifupdown
