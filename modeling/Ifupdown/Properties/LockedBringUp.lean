import Ifupdown.Session.Contention
import Ifupdown.Session.Stanzas

/-! Two `ifup` processes at a time that bring up the same interface. -/
namespace Ifupdown

variable {interfaces : Interfaces} {procs : Bool → Process} {target : Str} {file : StateDict} {m : Machine Bool}
  {p q : Bool}

/-- Two processes `ifup` of interfaces that are down, each of which is `target` or requires it.
`target` is down, too. -/
structure Contest (interfaces : Interfaces) (procs : Bool → Process) (target : Str) (file : StateDict) : Prop where
  up : ∀ p, (procs p).up = true
  name : ∀ p, Name (procs p).arg
  plain : ∀ p, (procs p).opts.force = false
  real : ∀ p, (procs p).opts.mock = false
  lockable : ∀ p, acquireStateLock (procs p).env (procs p).opts (procs p).arg = true
  known : ∀ p, (lifDictFind interfaces.collection.entries (procs p).arg).isSome = true
  wanted : ∀ p, target = (procs p).arg ∨ target ∈ interfaces.requires (procs p).arg
  down : file.refcount target = 0 ∧ ∀ p, file.refcount (procs p).arg = 0
  sane : interfaces.Sane
  sound : file.Sound

def Stage.isBusy : Stage → Bool
  | .locked _ _ => true
  | .changed _ _ => true
  | .leaving _ _ => true
  | _ => false

/-- A process that gets its lock finds the state file as it has read it, and no other process
between its lock and the state file. -/
def Undisturbed (procs : Bool → Process) (m : Machine Bool) (p : Bool) : Prop :=
  match m.stage p with
  | .loaded _ _ => m.grants procs p = true → m.file = m.seen p ∧ (m.stage !p).isBusy = false
  | _ => True

instance (procs : Bool → Process) (m : Machine Bool) (p : Bool) : Decidable (Undisturbed procs m p) := by
  unfold Undisturbed
  cases m.stage p <;> dsimp only <;> infer_instance

def Idle (interfaces : Interfaces) (procs : Bool → Process) (file : StateDict) (m : Machine Bool) (q : Bool) : Prop :=
  m.stage q = .starting ∨ m.stage q = .loaded (readState interfaces file) (procs q).arg ∧ m.seen q = file

def Outside (interfaces : Interfaces) (procs : Bool → Process) (file : StateDict) (m : Machine Bool) (q : Bool) :
    Prop :=
  Idle interfaces procs file m q ∨ m.stage q = .leaving false (readState interfaces file) ∨
    m.stage q = .exited false

def Later (interfaces : Interfaces) (procs : Bool → Process) (target : Str) (m : Machine Bool) (q : Bool) : Prop :=
  match m.stage q with
  | .starting => m.file.Sound ∧ 0 < m.file.refcount target
  | .loaded w iface =>
    w = readState interfaces (m.seen q) ∧ iface = (procs q).arg ∧ m.file.Sound ∧ 0 < m.file.refcount target
  | .locked w iface => iface = (procs q).arg ∧ w.Ready interfaces ∧ w.trace = [] ∧ 0 < w.count target
  | _ => True

def Started (target : Str) (m : Machine Bool) (times : Nat) : Prop :=
  ∀ phase ∈ upPhases, (starts phase m.trace).count target = times

/-- How far the two processes are: none has its lock, `p` has been the first to get it, `p` has
run the phases, and `p` has exited. -/
inductive Progress (interfaces : Interfaces) (procs : Bool → Process) (target : Str) (file : StateDict)
    (m : Machine Bool) : Prop where
  | waiting (same : m.file = file) (idle : ∀ p, Idle interfaces procs file m p) (none : Started target m 0)
  | working (p : Bool) (same : m.file = file) (stage : m.stage p = .locked (readState interfaces file) (procs p).arg)
      (other : Outside interfaces procs file m !p) (none : Started target m 0)
  | worked (p : Bool) (same : m.file = file) (w : World)
      (stage : ∃ rc, m.stage p = .changed rc w ∨ m.stage p = .leaving rc w) (ready : w.Ready interfaces)
      (counted : 0 < w.count target) (other : Outside interfaces procs file m !p) (once : Started target m 1)
  | settled (p : Bool) (stage : ∃ rc, m.stage p = .exited rc) (other : Later interfaces procs target m !p)
      (once : Started target m 1)

theorem not_self (p : Bool) : (!p) ≠ p := by
  cases p <;> decide

theorem contest_ifname (contest : Contest interfaces procs target file) (p : Bool) :
    (procs p).ifname = (procs p).arg := congrArg Prod.fst (contest.name p).split

theorem contest_resolve (contest : Contest interfaces procs target file) (sound : m.file.Sound) (p : Bool) :
    resolveArgument (readState interfaces m.file) (procs p).arg = some (procs p).arg :=
  resolve_known (contest.name p) sound (contest.known p)

theorem contest_change (contest : Contest interfaces procs target file) (p : Bool) {w w' : World}
    (ready : w.Ready interfaces) (fresh : w.trace = [])
    (uncounted : w.count target = 0 → w.count (procs p).arg = 0)
    (h : changeInterface (procs p).env (procs p).opts w (procs p).arg (procs p).ifname (procs p).up true = (rc, w'))
    (quiet : failures w'.trace = []) :
    w'.Ready interfaces ∧ 0 < w'.count target ∧
      ∀ phase ∈ upPhases, (starts phase w'.trace).count target = if w.count target = 0 then 1 else 0 := by
  rw [contest_ifname contest, contest.up] at h
  exact ifup_once ready (contest.name p) (contest.plain p) contest.sane (contest.lockable p) fresh (contest.wanted p)
    uncounted h quiet

/-- A process that is refused its lock leaves the state file as it has read it. -/
theorem outside_advance (contest : Contest interfaces procs target file) (same : m.file = file)
    (refused : ∀ w iface, m.stage q = .loaded w iface → m.grants procs q = false)
    (outside : Outside interfaces procs file m q) :
    Outside interfaces procs file (advance interfaces procs m q) q ∧ (advance interfaces procs m q).file = file ∧
      (advance interfaces procs m q).trace = m.trace := by
  have sound : m.file.Sound := same ▸ contest.sound
  rcases outside with (starting | ⟨loaded, seen⟩) | leaving | exited
  · rw [advance_starting starting (contest_resolve contest sound q)]
    refine ⟨Or.inl (Or.inr ⟨?_, ?_⟩), same, rfl⟩
    · rw [move_self, same]
    · simp only [move_seen, Function.update_self, same]
  · rw [advance_loaded loaded, refused _ _ loaded]
    exact ⟨Or.inr (Or.inl (move_self ..)), same, rfl⟩
  · rw [advance_leaving leaving]
    refine ⟨Or.inr (Or.inr (move_self ..)), ?_, rfl⟩
    rw [contest.real q]
    rfl
  · rw [advance_exited exited]
    exact ⟨Or.inr (Or.inr exited), same, rfl⟩

theorem outside_other (other : q ≠ p) (outside : Outside interfaces procs file m q) :
    Outside interfaces procs file (advance interfaces procs m p) q := by
  obtain ⟨stage, seen⟩ := advance_other interfaces procs m other
  unfold Outside Idle
  rw [stage, seen]
  exact outside

theorem idle_grants (contest : Contest interfaces procs target file) (idle : Idle interfaces procs file m !p) :
    m.grants procs p = true := by
  have free : (m.stage !p).holdsLock = false := by
    rcases idle with stage | ⟨stage, -⟩ <;> rw [stage] <;> rfl
  have lockable := contest.lockable p
  rw [← contest_ifname contest] at lockable
  apply grants_free lockable
  intro q other
  obtain rfl : q = !p := by
    cases p <;> cases q <;> simp_all
  exact free

/-- The file that the first process has written tells the other one that `target` is up. -/
theorem later_of_outside (outside : Outside interfaces procs file m q) (sound : m.file.Sound)
    (counted : 0 < m.file.refcount target) : Later interfaces procs target m q := by
  unfold Later
  rcases outside with (stage | ⟨stage, seen⟩) | stage | stage
  · rw [stage]
    exact ⟨sound, counted⟩
  · rw [stage, seen]
    exact ⟨rfl, rfl, sound, counted⟩
  · rw [stage]
    trivial
  · rw [stage]
    trivial

theorem started_append {ev : List (Event Str)} (started : Started target m a)
    (more : ∀ phase ∈ upPhases, (starts phase ev).count target = b) {m' : Machine Bool}
    (trace : m'.trace = m.trace ++ ev) : Started target m' (a + b) := by
  intro phase among
  rw [trace, starts_append, List.count_append, started phase among, more phase among]

theorem started_same (started : Started target m a) {m' : Machine Bool} (trace : m'.trace = m.trace) :
    Started target m' a := by
  intro phase among
  rw [trace, started phase among]

theorem waiting_advance (contest : Contest interfaces procs target file) (same : m.file = file)
    (idle : ∀ p, Idle interfaces procs file m p) (none : Started target m 0) :
    Progress interfaces procs target file (advance interfaces procs m p) := by
  have other : Outside interfaces procs file (advance interfaces procs m p) !p :=
    outside_other (not_self p) (Or.inl (idle _))
  rcases idle p with starting | ⟨loaded, seen⟩
  · have step := advance_starting starting (contest_resolve contest (same ▸ contest.sound) p)
    refine .waiting (by rw [step]; exact same) (fun q => ?_) (started_same none (by rw [step]; rfl))
    by_cases here : q = p
    · subst here
      refine Or.inr ⟨?_, ?_⟩
      · rw [step, move_self, same]
      · rw [step]
        simp only [move_seen, Function.update_self, same]
    · obtain ⟨stage, seen⟩ := advance_other interfaces procs m here
      unfold Idle
      rw [stage, seen]
      exact idle q
  · have step : advance interfaces procs m p = _ := advance_loaded loaded
    rw [if_pos (idle_grants contest (idle _))] at step
    exact .working p (by rw [step]; exact same) (by rw [step, move_self]) other (started_same none (by rw [step]; rfl))

theorem working_advance (contest : Contest interfaces procs target file) (same : m.file = file)
    (stage : m.stage p = .locked (readState interfaces file) (procs p).arg)
    (other : Outside interfaces procs file m !p) (none : Started target m 0)
    (quiet : failures (advance interfaces procs m p).trace = []) :
    Progress interfaces procs target file (advance interfaces procs m p) := by
  rcases changed : changeInterface (procs p).env (procs p).opts (readState interfaces file) (procs p).arg
    (procs p).ifname (procs p).up true with ⟨rc, w'⟩
  have step : advance interfaces procs m p = _ := advance_locked stage changed
  rw [step, failures_append, List.append_eq_nil_iff] at quiet
  have down : (readState interfaces file).count = _ := readState_count contest.sound
  obtain ⟨ready, counted, once⟩ := contest_change contest p (readState_ready contest.sound) rfl
    (fun _ => by rw [down]; exact contest.down.2 p) changed quiet.2
  rw [down, contest.down.1, if_pos rfl] at once
  refine .worked p (by rw [step]; exact same) w' ⟨rc, Or.inl ?_⟩ ready counted (outside_other (not_self p) other)
    (started_append none once (by rw [step]))
  rw [step]
  exact move_self ..

theorem worked_advance (contest : Contest interfaces procs target file) (same : m.file = file)
    (stage : m.stage p = .changed rc w ∨ m.stage p = .leaving rc w) (ready : w.Ready interfaces)
    (counted : 0 < w.count target) (other : Outside interfaces procs file m !p) (once : Started target m 1) :
    Progress interfaces procs target file (advance interfaces procs m p) := by
  have other := outside_other (not_self p) other
  rcases stage with stage | stage
  · have step : advance interfaces procs m p = _ := advance_changed stage
    refine .worked p (by rw [step]; exact same) w ⟨rc, Or.inr ?_⟩ ready counted other
      (started_same once (by rw [step, move_trace]))
    rw [step, move_self]
  · have step : advance interfaces procs m p = _ := advance_leaving stage
    have written : (advance interfaces procs m p).file = w.state := by
      rw [step]
      dsimp only
      rw [contest.real p, if_neg Bool.false_ne_true]
    refine .settled p ⟨rc, ?_⟩ (later_of_outside other ?_ ?_) (started_same once (by rw [step]; rfl))
    · rw [step]
      exact move_self ..
    · rw [written]
      exact ready_sound ready
    · rw [written, state_refcount ready]
      exact counted

theorem outside_moves (contest : Contest interfaces procs target file) (same : m.file = file)
    (undisturbed : Undisturbed procs m q) (busy : (m.stage !q).isBusy = true)
    (outside : Outside interfaces procs file m q) :
    Outside interfaces procs file (advance interfaces procs m q) q ∧ (advance interfaces procs m q).file = file ∧
      (advance interfaces procs m q).trace = m.trace := by
  apply outside_advance contest same _ outside
  intro w iface loaded
  unfold Undisturbed at undisturbed
  rw [loaded] at undisturbed
  by_contra granted
  have free := (undisturbed (Bool.eq_true_of_not_eq_false granted)).2
  rw [busy] at free
  cases free

theorem later_advance (contest : Contest interfaces procs target file) (undisturbed : Undisturbed procs m q)
    (later : Later interfaces procs target m q) (once : Started target m 1)
    (quiet : failures (advance interfaces procs m q).trace = []) :
    Later interfaces procs target (advance interfaces procs m q) q ∧ Started target (advance interfaces procs m q) 1 := by
  unfold Later at later
  unfold Undisturbed at undisturbed
  cases stage : m.stage q with
  | starting =>
    rw [stage] at later
    have step := advance_starting stage (contest_resolve contest later.1 q)
    refine ⟨?_, started_same once (by rw [step]; rfl)⟩
    rw [step]
    simp only [Later, move_self, move_seen, move_file, Function.update_self]
    exact ⟨trivial, trivial, later.1, later.2⟩
  | loaded w iface =>
    rw [stage] at later undisturbed
    obtain ⟨rfl, rfl, sound, counted⟩ := later
    have step : advance interfaces procs m q = _ := advance_loaded stage
    refine ⟨?_, started_same once (by rw [step]; rfl)⟩
    rw [step]
    by_cases granted : m.grants procs q = true
    · have current := (undisturbed granted).1
      rw [if_pos granted]
      simp only [Later, move_self]
      rw [← current]
      refine ⟨trivial, readState_ready sound, rfl, ?_⟩
      rw [readState_count sound]
      exact counted
    · rw [if_neg granted]
      simp only [Later, move_self]
  | locked w iface =>
    rw [stage] at later
    obtain ⟨rfl, ready, fresh, counted⟩ := later
    rcases changed : changeInterface (procs q).env (procs q).opts w (procs q).arg (procs q).ifname (procs q).up true
      with ⟨rc, w'⟩
    have step : advance interfaces procs m q = _ := advance_locked stage changed
    rw [step, failures_append, List.append_eq_nil_iff] at quiet
    obtain ⟨-, -, never⟩ := contest_change contest q ready fresh (fun zero => absurd zero counted.ne') changed quiet.2
    rw [if_neg counted.ne'] at never
    refine ⟨?_, started_append once never (by rw [step])⟩
    rw [step]
    simp only [Later, move_self]
  | changed rc w =>
    have step : advance interfaces procs m q = _ := advance_changed stage
    refine ⟨?_, started_same once (by rw [step]; rfl)⟩
    rw [step]
    simp only [Later, move_self]
  | leaving rc w =>
    have step : advance interfaces procs m q = _ := advance_leaving stage
    refine ⟨?_, started_same once (by rw [step]; rfl)⟩
    rw [step]
    simp only [Later, move_self]
  | exited rc =>
    rw [advance_exited stage]
    refine ⟨?_, once⟩
    unfold Later
    rw [stage]
    trivial

/-- Either process takes its next step undisturbed. -/
theorem progress_advance (contest : Contest interfaces procs target file) (undisturbed : Undisturbed procs m q)
    (progress : Progress interfaces procs target file m)
    (quiet : failures (advance interfaces procs m q).trace = []) :
    Progress interfaces procs target file (advance interfaces procs m q) := by
  cases progress with
  | waiting same idle none => exact waiting_advance contest same idle none
  | working p same stage other none =>
    by_cases here : q = p
    · subst here
      exact working_advance contest same stage other none quiet
    · obtain rfl : q = !p := by
        cases p <;> cases q <;> simp_all
      have busy : (m.stage (!!p)).isBusy = true := by
        rw [Bool.not_not, stage]
        rfl
      obtain ⟨outside, kept, trace⟩ := outside_moves contest same undisturbed busy other
      refine .working p kept ?_ outside (started_same none trace)
      rw [(advance_other interfaces procs m (Ne.symm here)).1, stage]
  | worked p same w stage ready counted other once =>
    obtain ⟨rc, stage⟩ := stage
    by_cases here : q = p
    · subst here
      exact worked_advance contest same stage ready counted other once
    · obtain rfl : q = !p := by
        cases p <;> cases q <;> simp_all
      have busy : (m.stage (!!p)).isBusy = true := by
        rw [Bool.not_not]
        rcases stage with stage | stage <;> rw [stage] <;> rfl
      obtain ⟨outside, kept, trace⟩ := outside_moves contest same undisturbed busy other
      refine .worked p kept w ⟨rc, ?_⟩ ready counted outside (started_same once trace)
      rw [(advance_other interfaces procs m (Ne.symm here)).1]
      exact stage
  | settled p stage other once =>
    obtain ⟨rc, stage⟩ := stage
    by_cases here : q = p
    · subst here
      rw [advance_exited stage]
      exact .settled q ⟨rc, stage⟩ other once
    · obtain rfl : q = !p := by
        cases p <;> cases q <;> simp_all
      obtain ⟨later, once⟩ := later_advance contest undisturbed other once quiet
      refine .settled p ⟨rc, ?_⟩ later once
      rw [(advance_other interfaces procs m (Ne.symm here)).1, stage]

/-- If each process that gets its lock is undisturbed, two processes that bring up the same interface
start each of its phases once. -/
theorem brought_up_once (interfaces : Interfaces) (procs : Bool → Process) (target : Str) (file : StateDict)
    (schedule : List Bool) (contest : Contest interfaces procs target file)
    (undisturbed : Schedule.Meets (advance interfaces procs) (Undisturbed procs) (Machine.start file) schedule)
    (exited : ∀ p, ∃ rc, ((Machine.start file).run interfaces procs schedule).stage p = .exited rc)
    (quiet : failures ((Machine.start file).run interfaces procs schedule).trace = []) :
    ∀ phase ∈ upPhases, (starts phase ((Machine.start file).run interfaces procs schedule).trace).count target = 1 := by
  have progress := Schedule.run_invariant undisturbed
    (fun m => failures m.trace = [] → Progress interfaces procs target file m)
    (fun _ => .waiting rfl (fun _ => Or.inl rfl) (fun _ _ => rfl))
    (fun m p undisturbed progress quiet => by
      obtain ⟨ev, trace⟩ := advance_extends interfaces procs m p
      have before := quiet
      rw [trace, failures_append, List.append_eq_nil_iff] at before
      exact progress_advance contest undisturbed (progress before.1) quiet) quiet
  cases progress with
  | waiting _ idle _ =>
    obtain ⟨rc, stage⟩ := exited true
    rcases idle true with other | ⟨other, -⟩ <;> exact absurd (stage.symm.trans other) (by simp)
  | working p _ other =>
    obtain ⟨rc, stage⟩ := exited p
    exact absurd (stage.symm.trans other) (by simp)
  | worked p _ w other =>
    obtain ⟨rc, stage⟩ := exited p
    obtain ⟨rc', other | other⟩ := other <;> exact absurd (stage.symm.trans other) (by simp)
  | settled _ _ _ once => exact once

def pair (first second : String) (p : Bool) : Process :=
  { env := calm, up := true, arg := if p then str second else str first }

theorem pair_contest {target : Str} (names : ∀ p, Name (pair first second p).arg)
    (known : ∀ p, (lifDictFind interfaces.collection.entries (pair first second p).arg).isSome = true)
    (wanted : ∀ p, target = (pair first second p).arg ∨ target ∈ interfaces.requires (pair first second p).arg)
    (sane : interfaces.Sane) : Contest interfaces (pair first second) target StateDict.empty where
  up _ := rfl
  name := names
  plain _ := rfl
  real _ := rfl
  lockable _ := rfl
  known := known
  wanted := wanted
  down := ⟨rfl, fun _ => rfl⟩
  sane := sane
  sound := sound_empty

/-- The second process is refused the lock that the first one holds. -/
theorem brought_up_once_refused :
    failures ((Machine.start StateDict.empty).run fork (pair "eth0" "eth0")
      [false, true, false, true, false, false, true, false]).trace = [] ∧
    ∀ phase ∈ upPhases, (starts phase ((Machine.start StateDict.empty).run fork (pair "eth0" "eth0")
      [false, true, false, true, false, false, true, false]).trace).count (str "eth0") = 1 := by
  have names : ∀ p, Name (pair "eth0" "eth0" p).arg := by
    intro p
    cases p <;> exact ⟨by decide, by decide⟩
  have quiet : failures ((Machine.start StateDict.empty).run fork (pair "eth0" "eth0")
      [false, true, false, true, false, false, true, false]).trace = [] := by decide
  refine ⟨quiet, ?_⟩
  apply brought_up_once fork (pair "eth0" "eth0") (str "eth0") StateDict.empty
    [false, true, false, true, false, false, true, false]
    (pair_contest names (by decide) (by decide) interfacesFile_sane) (by decide)
  · intro p
    cases p <;> exact ⟨_, rfl⟩
  · exact quiet

theorem brought_up_twice :
    ¬ ∀ (interfaces : Interfaces) (procs : Bool → Process) (target : Str) (file : StateDict) (schedule : List Bool),
      Contest interfaces procs target file → (∀ p, (procs p).opts.noLock = false) →
      (∀ p, ∃ rc, ((Machine.start file).run interfaces procs schedule).stage p = .exited rc) →
      failures ((Machine.start file).run interfaces procs schedule).trace = [] →
      ∀ phase ∈ upPhases,
        (starts phase ((Machine.start file).run interfaces procs schedule).trace).count target = 1 := by
  intro claim
  have names : ∀ p, Name (pair "tun0" "tun1" p).arg := by
    intro p
    cases p <;> exact ⟨by decide, by decide⟩
  have once := claim fork (pair "tun0" "tun1") (str "eth0") StateDict.empty
    [false, true, false, true, false, true, false, true, false, true]
    (pair_contest names (by decide) (by decide) interfacesFile_sane) (fun _ => rfl)
    (by
      intro p
      cases p <;> exact ⟨_, rfl⟩)
    (by decide) .create (by decide)
  revert once
  decide

end Ifupdown
