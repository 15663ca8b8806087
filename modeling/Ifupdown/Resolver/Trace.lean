import Ifupdown.Base.Successors
import Ifupdown.Model.Lifecycle
import Ifupdown.Base.AtEach

/-! What a sequence of phases says about the interfaces: which were entered, which phases
were completed, and which interfaces are really configured afterwards. -/
namespace Ifupdown

def starts (phase : Phase) (trace : List (Event α)) : List α :=
  trace.filterMap fun
    | .started iface _ p => if p = phase then some iface else none
    | .finished .. => none

def completed (phase : Phase) (trace : List (Event α)) : List α :=
  trace.filterMap fun
    | .finished iface _ p true => if p = phase then some iface else none
    | _ => none

def failures (trace : List (Event α)) : List α :=
  trace.filterMap fun
    | .finished iface _ _ false => some iface
    | _ => none

@[simp] theorem starts_append (phase : Phase) (s t : List (Event α)) :
    starts phase (s ++ t) = starts phase s ++ starts phase t := List.filterMap_append

@[simp] theorem completed_append (phase : Phase) (s t : List (Event α)) :
    completed phase (s ++ t) = completed phase s ++ completed phase t := List.filterMap_append

@[simp] theorem failures_append (s t : List (Event α)) :
    failures (s ++ t) = failures s ++ failures t := List.filterMap_append

@[simp] theorem starts_nil (phase : Phase) : starts phase ([] : List (Event α)) = [] := rfl

@[simp] theorem completed_nil (phase : Phase) : completed phase ([] : List (Event α)) = [] := rfl

@[simp] theorem failures_nil : failures ([] : List (Event α)) = [] := rfl

theorem mem_starts {phase : Phase} {iface l : α} {trace : List (Event α)}
    (h : .started iface l phase ∈ trace) : iface ∈ starts phase trace :=
  List.mem_filterMap.mpr ⟨_, h, by simp⟩

def succeeded (iface lifname : α) (phases : List Phase) : List (Event α) :=
  phases.flatMap fun phase => [.started iface lifname phase, .finished iface lifname phase true]

def PhasesFail (iface lifname : α) (phases : List Phase) (events : List (Event α)) : Prop :=
  ∃ done phase rest, phases = done ++ phase :: rest ∧
    events = succeeded iface lifname done ++
      [.started iface lifname phase, .finished iface lifname phase false]

theorem starts_succeeded (phase : Phase) (iface lifname : α) {phases : List Phase}
    (distinct : phases.Nodup) :
    starts phase (succeeded iface lifname phases) = if phase ∈ phases then [iface] else [] := by
  induction phases with
  | nil => rfl
  | cons p rest ih =>
    obtain ⟨fresh, distinct⟩ := List.nodup_cons.mp distinct
    have tail := ih distinct
    simp only [succeeded, starts, List.flatMap_cons, List.filterMap_append] at tail ⊢
    rw [tail]
    by_cases same : p = phase
    · subst same; simp [fresh]
    · simp [same, Ne.symm same]

theorem completed_succeeded (phase : Phase) (iface lifname : α) {phases : List Phase}
    (distinct : phases.Nodup) :
    completed phase (succeeded iface lifname phases) = if phase ∈ phases then [iface] else [] := by
  induction phases with
  | nil => rfl
  | cons p rest ih =>
    obtain ⟨fresh, distinct⟩ := List.nodup_cons.mp distinct
    have tail := ih distinct
    simp only [succeeded, completed, List.flatMap_cons, List.filterMap_append] at tail ⊢
    rw [tail]
    by_cases same : p = phase
    · subst same; simp [fresh]
    · simp [same, Ne.symm same]

@[simp] theorem failures_succeeded (iface lifname : α) (phases : List Phase) :
    failures (succeeded iface lifname phases) = [] := by
  induction phases with
  | nil => rfl
  | cons p rest ih =>
    simp only [succeeded, failures, List.flatMap_cons, List.filterMap_append] at ih ⊢
    rw [ih]
    rfl

theorem upPhases_nodup : upPhases.Nodup := by decide

theorem downPhases_nodup : downPhases.Nodup := by decide

theorem failures_phasesFail {iface lifname : α} {phases : List Phase} {events : List (Event α)}
    (h : PhasesFail iface lifname phases events) : failures events = [iface] := by
  obtain ⟨done, phase, rest, _, rfl⟩ := h
  rw [failures_append, failures_succeeded]
  rfl

theorem starts_phasesFail (phase : Phase) {iface lifname : α} {phases : List Phase}
    {events : List (Event α)} (distinct : phases.Nodup) (h : PhasesFail iface lifname phases events) :
    (starts phase events).Sublist (if phase ∈ phases then [iface] else []) := by
  obtain ⟨done, failed, rest, rfl, rfl⟩ := h
  obtain ⟨front, back, apart⟩ := List.nodup_append.mp distinct
  rw [starts_append, starts_succeeded phase iface lifname front]
  have last : starts phase [.started iface lifname failed, .finished iface lifname failed false] =
      if failed = phase then [iface] else [] := by
    by_cases same : failed = phase <;> simp [starts, same]
  rw [last]
  by_cases early : phase ∈ done
  · have other : failed ≠ phase := fun same => apart phase early failed List.mem_cons_self same.symm
    simp [early, other]
  · by_cases same : failed = phase
    · subst same; simp [early]
    · simp [early, same]

theorem starts_succeeded_other {phase : Phase} (iface lifname : α) {phases : List Phase}
    (other : phase ∉ phases) : starts phase (succeeded iface lifname phases) = [] := by
  induction phases with
  | nil => rfl
  | cons p rest ih =>
    obtain ⟨here, later⟩ := not_or.mp (mt List.mem_cons.mpr other)
    simp only [succeeded, starts, List.flatMap_cons, List.filterMap_append] at ih ⊢
    rw [ih later]
    simp [Ne.symm here]

theorem starts_phasesFail_other {phase : Phase} {iface lifname : α} {phases : List Phase}
    {events : List (Event α)} (other : phase ∉ phases) (distinct : phases.Nodup)
    (h : PhasesFail iface lifname phases events) : starts phase events = [] := by
  have below := starts_phasesFail phase distinct h
  rw [if_neg other] at below
  exact List.sublist_nil.mp below

theorem starts_phasesFail_head {phase : Phase} {iface lifname : α} {later : List Phase}
    {events : List (Event α)} (h : PhasesFail iface lifname (phase :: later) events) :
    iface ∈ starts phase events := by
  obtain ⟨done, failed, rest, split, rfl⟩ := h
  cases done with
  | nil =>
    obtain ⟨rfl, -⟩ := List.cons.inj split
    simp [succeeded, starts]
  | cons first done =>
    obtain ⟨rfl, -⟩ := List.cons.inj split
    simp [succeeded, starts]

theorem completed_phasesFail {phase : Phase} {iface lifname : α} (front : List Phase)
    {events : List (Event α)} (distinct : (front ++ [phase]).Nodup)
    (h : PhasesFail iface lifname (front ++ [phase]) events) : completed phase events = [] := by
  obtain ⟨done, failed, rest, split, rfl⟩ := h
  have absent : phase ∉ done := by
    rcases List.eq_nil_or_concat rest with rfl | ⟨middle, last, rfl⟩
    · obtain ⟨rfl, same⟩ := List.append_inj' split rfl
      exact fun member => (List.nodup_append.mp distinct).2.2 phase member phase (by simp) rfl
    · simp only [List.concat_eq_append, ← List.cons_append, ← List.append_assoc] at split
      obtain ⟨rfl, same⟩ := List.append_inj' split rfl
      exact fun member => (List.nodup_append.mp distinct).2.2 phase
        (List.mem_append_left _ member) phase (by simp) rfl
  have front_nodup : done.Nodup := by
    rw [split] at distinct
    exact (List.nodup_append.mp distinct).1
  rw [completed_append, completed_succeeded phase iface lifname front_nodup]
  simp [absent, completed]

theorem completed_phasesFail_other {phase : Phase} {iface lifname : α} {phases : List Phase}
    {events : List (Event α)} (other : phase ∉ phases) (distinct : phases.Nodup)
    (h : PhasesFail iface lifname phases events) : completed phase events = [] := by
  obtain ⟨done, failed, rest, rfl, rfl⟩ := h
  have absent : phase ∉ done := fun member => other (List.mem_append_left _ member)
  rw [completed_append, completed_succeeded phase iface lifname (List.nodup_append.mp distinct).1]
  simp [absent, completed]

section Configured
variable [DecidableEq α]

/-- The interfaces brought up completely: post-up is the last of their phases. -/
def ups (trace : List (Event α)) : Finset α := (completed .postUp trace).toFinset

/-- The interfaces taken down completely: destroy is the last of their phases. -/
def downs (trace : List (Event α)) : Finset α := (completed .destroy trace).toFinset

def configuredStep (conf : Finset α) : Event α → Finset α
  | .finished iface _ .postUp true => insert iface conf
  | .finished iface _ .destroy true => conf.erase iface
  | _ => conf

/-- The interfaces really configured after `trace`, when those of `conf` were before. -/
def configured (conf : Finset α) (trace : List (Event α)) : Finset α :=
  trace.foldl configuredStep conf

@[simp] theorem configured_nil (conf : Finset α) : configured conf [] = conf := rfl

theorem configured_append (conf : Finset α) (s t : List (Event α)) :
    configured conf (s ++ t) = configured (configured conf s) t := List.foldl_append

@[simp] theorem ups_nil : ups ([] : List (Event α)) = ∅ := rfl

@[simp] theorem downs_nil : downs ([] : List (Event α)) = ∅ := rfl

@[simp] theorem ups_append (s t : List (Event α)) : ups (s ++ t) = ups s ∪ ups t := by
  simp [ups]

@[simp] theorem downs_append (s t : List (Event α)) : downs (s ++ t) = downs s ∪ downs t := by
  simp [downs]

theorem sdiff_downs_append (conf : Finset α) (s t : List (Event α)) :
    conf \ downs (s ++ t) = (conf \ downs s) \ downs t := by
  rw [downs_append]
  exact sdiff_sdiff_left.symm

@[simp] theorem ups_succeeded (iface lifname : α) : ups (succeeded iface lifname upPhases) = {iface} := by
  simp [ups, completed_succeeded, upPhases_nodup, show Phase.postUp ∈ upPhases by decide]

@[simp] theorem downs_succeeded (iface lifname : α) :
    downs (succeeded iface lifname downPhases) = {iface} := by
  simp [downs, completed_succeeded, downPhases_nodup, show Phase.destroy ∈ downPhases by decide]

theorem ups_phasesFail {iface lifname : α} {events : List (Event α)}
    (h : PhasesFail iface lifname upPhases events) : ups events = ∅ := by
  have absent := completed_phasesFail [.create, .preUp, .up] upPhases_nodup h
  simp [ups, absent]

theorem downs_phasesFail {iface lifname : α} {events : List (Event α)}
    (h : PhasesFail iface lifname downPhases events) : downs events = ∅ := by
  have absent := completed_phasesFail [.preDown, .down, .postDown] downPhases_nodup h
  simp [downs, absent]

theorem configuredStep_ups {event : Event α} (conf : Finset α)
    (h : completed .destroy [event] = []) : configuredStep conf event = conf ∪ ups [event] := by
  rcases event with ⟨iface, lifname, phase⟩ | ⟨iface, lifname, phase, _ | _⟩
  · simp [configuredStep, ups, completed]
  · simp [configuredStep, ups, completed]
  · cases phase <;> simp [completed] at h <;>
      simp [configuredStep, ups, completed]

theorem configuredStep_downs {event : Event α} (conf : Finset α)
    (h : completed .postUp [event] = []) : configuredStep conf event = conf \ downs [event] := by
  rcases event with ⟨iface, lifname, phase⟩ | ⟨iface, lifname, phase, _ | _⟩
  · simp [configuredStep, downs, completed]
  · simp [configuredStep, downs, completed]
  · cases phase <;> simp [completed] at h <;>
      simp [configuredStep, downs, completed, Finset.sdiff_singleton_eq_erase]

theorem configured_of_no_downs {trace : List (Event α)} (conf : Finset α)
    (h : completed .destroy trace = []) : configured conf trace = conf ∪ ups trace := by
  induction trace generalizing conf with
  | nil => simp
  | cons event rest ih =>
    rw [← List.singleton_append, completed_append, List.append_eq_nil_iff] at h
    rw [← List.singleton_append, configured_append, ups_append, ih _ h.2, ← Finset.union_assoc]
    exact congrArg (· ∪ ups rest) (configuredStep_ups conf h.1)

theorem configured_of_no_ups {trace : List (Event α)} (conf : Finset α)
    (h : completed .postUp trace = []) : configured conf trace = conf \ downs trace := by
  induction trace generalizing conf with
  | nil => simp
  | cons event rest ih =>
    rw [← List.singleton_append, completed_append, List.append_eq_nil_iff] at h
    rw [← List.singleton_append, configured_append, downs_append, ih _ h.2]
    rw [show configured conf [event] = conf \ downs [event] from configuredStep_downs conf h.1]
    exact sdiff_sdiff_left

end Configured

end Ifupdown
