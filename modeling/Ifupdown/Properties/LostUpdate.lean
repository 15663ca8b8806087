import Ifupdown.Session.Turns
import Ifupdown.Session.Stanzas

/-! Processes that read the state file and write it back, in any order of their steps. -/
namespace Ifupdown

variable {ι : Type} [DecidableEq ι] [Fintype ι] {interfaces : Interfaces} {procs : ι → Process} {m : Machine ι}
  {p : ι} {file : StateDict} {order : List ι}

def Current (procs : ι → Process) (m : Machine ι) (p : ι) : Prop :=
  match m.stage p with
  | .leaving _ _ => (procs p).opts.mock = true ∨ m.file = m.seen p
  | _ => True

instance (procs : ι → Process) (m : Machine ι) (p : ι) : Decidable (Current procs m p) := by
  unfold Current
  cases m.stage p <;> dsimp only <;> infer_instance

/-- One process after the other, each on the state file that the last one has left. -/
def inTurn (interfaces : Interfaces) (procs : ι → Process) (order : List ι) (file : StateDict) : StateDict :=
  order.foldl (fun file p => (outcome interfaces (procs p) file).2) file

/-- The processes that have exited, if all of them with success, have made of the state file
what they would have made of it in turn. -/
structure Serialized (interfaces : Interfaces) (procs : ι → Process) (file : StateDict) (m : Machine ι)
    (order : List ι) : Prop where
  nodup : order.Nodup
  exited : ∀ p, p ∈ order ↔ ∃ rc, m.stage p = .exited rc
  written : (∀ p ∈ order, m.stage p = .exited true) → m.file = inTurn interfaces procs order file

omit [DecidableEq ι] [Fintype ι] in
theorem serialized_start : Serialized interfaces procs file (Machine.start file) ([] : List ι) where
  nodup := List.nodup_nil
  exited p := by simp [Machine.start]
  written _ := rfl

theorem serialized_between (serialized : Serialized interfaces procs file m order)
    (before : ∀ rc, m.stage p ≠ .exited rc) (after : ∀ rc, (advance interfaces procs m p).stage p ≠ .exited rc)
    (same : (advance interfaces procs m p).file = m.file) :
    Serialized interfaces procs file (advance interfaces procs m p) order where
  nodup := serialized.nodup
  exited q := by
    by_cases here : q = p
    · subst here
      rw [serialized.exited q]
      exact iff_of_false (fun ⟨rc, done⟩ => before rc done) (fun ⟨rc, done⟩ => after rc done)
    · rw [(advance_other interfaces procs m here).1]
      exact serialized.exited q
  written all := by
    rw [same]
    apply serialized.written
    intro q member
    have here : q ≠ p := by
      rintro rfl
      obtain ⟨rc, done⟩ := (serialized.exited q).mp member
      exact before rc done
    rw [← (advance_other interfaces procs m here).1]
    exact all q member

theorem serialized_leaving (serialized : Serialized interfaces procs file m order) (stage : m.stage p = .leaving rc w)
    (current : Current procs m p) (knows : (procs p).Knows interfaces (m.seen p) (m.stage p)) :
    Serialized interfaces procs file (advance interfaces procs m p) (order ++ [p]) := by
  have fresh : p ∉ order := by
    intro member
    obtain ⟨rc, done⟩ := (serialized.exited p).mp member
    rw [stage] at done
    cases done
  have moved : (advance interfaces procs m p).stage p = .exited rc := by
    rw [advance_leaving stage]
    exact move_self m p _
  refine ⟨List.nodup_append.mpr ⟨serialized.nodup, List.nodup_singleton p, ?_⟩, fun q => ?_, fun all => ?_⟩
  · intro a old b new same
    rw [List.mem_singleton.mp new] at same
    exact fresh (same ▸ old)
  · by_cases here : q = p
    · subst here
      simp [moved]
    · rw [List.mem_append, (advance_other interfaces procs m here).1, ← serialized.exited q]
      simp [here]
  · have success := all p (List.mem_append_right _ (List.mem_singleton.mpr rfl))
    rw [moved] at success
    cases success
    have before : m.file = inTurn interfaces procs order file := by
      apply serialized.written
      intro q member
      have here : q ≠ p := fun same => fresh (same ▸ member)
      rw [← (advance_other interfaces procs m here).1]
      exact all q (List.mem_append_left _ member)
    rw [stage] at knows
    have result := knows rfl
    rw [advance_leaving stage]
    simp only [inTurn, List.foldl_append, List.foldl_cons, List.foldl_nil]
    rw [show order.foldl (fun file p => (outcome interfaces (procs p) file).2) file = m.file from before.symm]
    unfold Current at current
    rw [stage] at current
    rcases current with mock | same
    · rw [if_pos mock, outcome_mock mock]
    · rw [same, result]

theorem serialized_advance (current : Current procs m p)
    (knows : ∀ q, (procs q).Knows interfaces (m.seen q) (m.stage q))
    (serialized : ∃ order, Serialized interfaces procs file m order) :
    ∃ order, Serialized interfaces procs file (advance interfaces procs m p) order := by
  obtain ⟨order, serialized⟩ := serialized
  cases stage : m.stage p with
  | starting =>
    cases resolved : resolveArgument (readState interfaces m.file) (procs p).arg with
    | none =>
      have step := advance_unknown stage resolved
      exact ⟨order, serialized_between serialized (by simp [stage]) (by simp [step]) (by rw [step]; rfl)⟩
    | some iface =>
      have step := advance_starting stage resolved
      exact ⟨order, serialized_between serialized (by simp [stage]) (by simp [step]) (by rw [step]; rfl)⟩
  | loaded w iface =>
    have step : advance interfaces procs m p = _ := advance_loaded stage
    refine ⟨order, serialized_between serialized (by simp [stage]) (fun rc => ?_) (by rw [step, move_file])⟩
    rw [step, move_self]
    split <;> simp
  | locked w iface =>
    rcases changed : changeInterface (procs p).env (procs p).opts w iface (procs p).ifname (procs p).up true
      with ⟨rc, w'⟩
    have step : advance interfaces procs m p = _ := advance_locked stage changed
    exact ⟨order, serialized_between serialized (by simp [stage]) (by simp [step]) (by rw [step]; rfl)⟩
  | changed rc w =>
    have step : advance interfaces procs m p = _ := advance_changed stage
    exact ⟨order, serialized_between serialized (by simp [stage]) (by simp [step]) (by rw [step, move_file])⟩
  | leaving rc w => exact ⟨order ++ [p], serialized_leaving serialized stage current (knows p)⟩
  | exited rc =>
    rw [advance_exited stage]
    exact ⟨order, serialized⟩

/-- If every process finds the state file unchanged when it writes it, the file is in the end as
if the processes had run one after the other. -/
theorem no_lost_update {ι : Type} [DecidableEq ι] [Fintype ι] (interfaces : Interfaces) (procs : ι → Process)
    (file : StateDict) (schedule : List ι)
    (current : Schedule.Meets (advance interfaces procs) (Current procs) (Machine.start file) schedule)
    (success : ∀ p, ((Machine.start file).run interfaces procs schedule).stage p = .exited true) :
    ∃ order : List ι, order.Nodup ∧ (∀ p, p ∈ order) ∧
      ((Machine.start file).run interfaces procs schedule).file = inTurn interfaces procs order file := by
  have invariant := Schedule.run_invariant current
    (fun m => (∀ q, (procs q).Knows interfaces (m.seen q) (m.stage q)) ∧
      ∃ order, Serialized interfaces procs file m order)
    ⟨fun q => show (procs q).Knows interfaces file .starting from trivial, [], serialized_start⟩
    (fun m p current ⟨knows, serialized⟩ =>
      ⟨advance_all_know knows p, serialized_advance current knows serialized⟩)
  obtain ⟨-, order, serialized⟩ := invariant
  exact ⟨order, serialized.nodup, fun p => (serialized.exited p).mpr ⟨true, success p⟩,
    serialized.written fun p _ => success p⟩

def ports : Interfaces := interfacesFile [(str "eth0", []), (str "eth1", [])] (by decide) (by decide) (by decide)

def portsUp (second : Bool) : Process :=
  { env := calm, up := true, arg := if second then str "eth1" else str "eth0" }

theorem no_lost_update_ports : ∃ order : List Bool, order.Nodup ∧ (∀ p, p ∈ order) ∧
    ((Machine.start StateDict.empty).run ports portsUp
      [false, false, false, false, false, true, true, true, true, true]).file =
        inTurn ports portsUp order StateDict.empty :=
  no_lost_update ports portsUp StateDict.empty _ (by decide) (by intro p; cases p <;> rfl)

theorem update_lost :
    ¬ ∀ (interfaces : Interfaces) (procs : Bool → Process) (file : StateDict) (schedule : List Bool),
      (procs false).ifname ≠ (procs true).ifname →
      (∀ p, ((Machine.start file).run interfaces procs schedule).stage p = .exited true) →
      ((Machine.start file).run interfaces procs schedule).file = inTurn interfaces procs [false, true] file ∨
        ((Machine.start file).run interfaces procs schedule).file = inTurn interfaces procs [true, false] file := by
  intro claim
  have same := claim ports portsUp StateDict.empty [false, true, false, false, false, false, true, true, true, true]
    (by decide) (by intro p; cases p <;> rfl)
  revert same
  decide

end Ifupdown
