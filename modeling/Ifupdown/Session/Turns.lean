import Ifupdown.Model.Processes
import Ifupdown.Session.Forced

/-! What a process knows at each of its steps, whatever the others do in between. -/
namespace Ifupdown

variable {ι : Type} [DecidableEq ι] {interfaces : Interfaces} {procs : ι → Process} {m : Machine ι} {p q : ι}

@[simp] theorem move_file (m : Machine ι) (p : ι) (stage : Stage) : (m.move p stage).file = m.file := rfl

@[simp] theorem move_seen (m : Machine ι) (p : ι) (stage : Stage) : (m.move p stage).seen = m.seen := rfl

@[simp] theorem move_trace (m : Machine ι) (p : ι) (stage : Stage) : (m.move p stage).trace = m.trace := rfl

@[simp] theorem move_self (m : Machine ι) (p : ι) (stage : Stage) : (m.move p stage).stage p = stage :=
  Function.update_self ..

theorem move_other (m : Machine ι) (stage : Stage) (other : q ≠ p) : (m.move p stage).stage q = m.stage q :=
  Function.update_of_ne other ..

def readState (interfaces : Interfaces) (file : StateDict) : World := ({ saved := file } : System).load interfaces

theorem outcome_known {proc : Process} (known : resolveArgument (readState interfaces file) proc.arg = some iface)
    (changed : changeInterface proc.env proc.opts (readState interfaces file) iface proc.ifname proc.up true = (rc, w)) :
    outcome interfaces proc file = (rc, if proc.opts.mock then file else w.state) := by
  unfold outcome ifupdownMain updateStateFileAndExit changeInterfaces
  simp only [Process.command, Bool.not_false, List.isEmpty_cons, Bool.and_false, Bool.false_eq_true, if_false,
    changeNamedInterfaces]
  rw [show resolveArgument (({ saved := file } : System).load interfaces) proc.arg = some iface from known]
  dsimp only
  rw [show changeInterface proc.env proc.opts (({ saved := file } : System).load interfaces) iface
    (splitAlias proc.arg).1 proc.up true = (rc, w) from changed]
  cases rc <;> dsimp only <;> split <;> rfl

theorem outcome_mock {proc : Process} (mock : proc.opts.mock = true) (file : StateDict) :
    (outcome interfaces proc file).2 = file :=
  congrArg System.saved (ifupdownMain_mock mock proc.command)

/-- What the memory of a process has to do with the state file that it has read. -/
def Process.Knows (proc : Process) (interfaces : Interfaces) (seen : StateDict) : Stage → Prop
  | .starting => True
  | .loaded w iface => w = readState interfaces seen ∧ resolveArgument w proc.arg = some iface
  | .locked w iface => w = readState interfaces seen ∧ resolveArgument w proc.arg = some iface
  | .changed rc w =>
    rc = true → outcome interfaces proc seen = (true, if proc.opts.mock then seen else w.state)
  | .leaving rc w =>
    rc = true → outcome interfaces proc seen = (true, if proc.opts.mock then seen else w.state)
  | .exited _ => True

variable [Fintype ι]

theorem grants_free (lockable : acquireStateLock (procs p).env (procs p).opts (procs p).ifname = true)
    (free : ∀ q, q ≠ p → (m.stage q).holdsLock = false) : m.grants procs p = true := by
  unfold Machine.grants
  rw [lockable, Bool.true_and, Bool.or_eq_true]
  exact Or.inr (decide_eq_true fun q other _ _ => free q other)

theorem advance_starting (stage : m.stage p = .starting)
    (known : resolveArgument (readState interfaces m.file) (procs p).arg = some iface) :
    advance interfaces procs m p =
      { m with seen := Function.update m.seen p m.file }.move p (.loaded (readState interfaces m.file) iface) := by
  unfold advance
  rw [stage]
  dsimp only
  rw [show resolveArgument (({ saved := m.file } : System).load interfaces) (procs p).arg = some iface from known]
  rfl

theorem advance_unknown (stage : m.stage p = .starting)
    (unknown : resolveArgument (readState interfaces m.file) (procs p).arg = none) :
    advance interfaces procs m p =
      { m with seen := Function.update m.seen p m.file }.move p (.leaving false (readState interfaces m.file)) := by
  unfold advance
  rw [stage]
  dsimp only
  rw [show resolveArgument (({ saved := m.file } : System).load interfaces) (procs p).arg = none from unknown]
  rfl

theorem advance_loaded (stage : m.stage p = .loaded w iface) :
    advance interfaces procs m p = m.move p (if m.grants procs p then .locked w iface else .leaving false w) := by
  simp only [advance, stage]

theorem advance_locked (stage : m.stage p = .locked w iface)
    (changed : changeInterface (procs p).env (procs p).opts w iface (procs p).ifname (procs p).up true = (rc, w')) :
    advance interfaces procs m p = { m.move p (.changed rc w') with trace := m.trace ++ w'.trace } := by
  simp only [advance, stage, changed]

theorem advance_changed (stage : m.stage p = .changed rc w) :
    advance interfaces procs m p = m.move p (.leaving rc w) := by
  simp only [advance, stage]

theorem advance_leaving (stage : m.stage p = .leaving rc w) :
    advance interfaces procs m p =
      { m.move p (.exited rc) with file := if (procs p).opts.mock then m.file else w.state } := by
  simp only [advance, stage]

theorem advance_exited (stage : m.stage p = .exited rc) : advance interfaces procs m p = m := by
  simp only [advance, stage]

theorem advance_other (interfaces : Interfaces) (procs : ι → Process) (m : Machine ι) (other : q ≠ p) :
    (advance interfaces procs m p).stage q = m.stage q ∧ (advance interfaces procs m p).seen q = m.seen q := by
  unfold advance
  cases m.stage p with
  | starting =>
    dsimp only
    split <;> exact ⟨move_other _ _ other, Function.update_of_ne other ..⟩
  | loaded w iface => exact ⟨move_other _ _ other, rfl⟩
  | locked w iface => exact ⟨move_other _ _ other, rfl⟩
  | changed rc w => exact ⟨move_other _ _ other, rfl⟩
  | leaving rc w => exact ⟨move_other _ _ other, rfl⟩
  | exited rc => exact ⟨rfl, rfl⟩

theorem advance_extends (interfaces : Interfaces) (procs : ι → Process) (m : Machine ι) (p : ι) :
    ∃ ev, (advance interfaces procs m p).trace = m.trace ++ ev := by
  unfold advance
  cases m.stage p with
  | starting =>
    refine ⟨[], ?_⟩
    rw [List.append_nil]
    dsimp only
    split <;> rfl
  | locked w iface => exact ⟨_, rfl⟩
  | loaded w iface => exact ⟨[], (List.append_nil _).symm⟩
  | changed rc w => exact ⟨[], (List.append_nil _).symm⟩
  | leaving rc w => exact ⟨[], (List.append_nil _).symm⟩
  | exited rc => exact ⟨[], (List.append_nil _).symm⟩

theorem advance_knows (knows : (procs p).Knows interfaces (m.seen p) (m.stage p)) :
    (procs p).Knows interfaces ((advance interfaces procs m p).seen p) ((advance interfaces procs m p).stage p) := by
  cases stage : m.stage p with
  | starting =>
    cases resolved : resolveArgument (readState interfaces m.file) (procs p).arg with
    | none =>
      rw [advance_unknown stage resolved, move_self, move_seen]
      intro success
      cases success
    | some iface =>
      rw [advance_starting stage resolved]
      simp only [move_self, move_seen, Function.update_self]
      exact ⟨rfl, resolved⟩
  | loaded w iface =>
    rw [stage] at knows
    rw [advance_loaded stage, move_self, move_seen]
    split
    · exact knows
    · intro success
      cases success
  | locked w iface =>
    rw [stage] at knows
    obtain ⟨rfl, known⟩ := knows
    rcases changed : changeInterface (procs p).env (procs p).opts (readState interfaces (m.seen p)) iface
      (procs p).ifname (procs p).up true with ⟨rc, w'⟩
    rw [advance_locked stage changed]
    simp only [move_self, move_seen]
    intro success
    rw [outcome_known known changed, success]
  | changed rc w =>
    rw [stage] at knows
    rw [advance_changed stage, move_self, move_seen]
    exact knows
  | leaving rc w =>
    rw [advance_leaving stage]
    simp only [move_self]
    trivial
  | exited rc =>
    rw [advance_exited stage, stage]
    trivial

/-- In every run all processes know what they have read. -/
theorem advance_all_know (knows : ∀ q, (procs q).Knows interfaces (m.seen q) (m.stage q)) (p : ι) :
    ∀ q, (procs q).Knows interfaces ((advance interfaces procs m p).seen q) ((advance interfaces procs m p).stage q) := by
  intro q
  by_cases same : q = p
  · subst same
    exact advance_knows (knows q)
  · obtain ⟨stage, seen⟩ := advance_other interfaces procs m same
    rw [stage, seen]
    exact knows q

end Ifupdown
