import Ifupdown.Resolver.Relations

/-! What a bring-up does to the counts, whichever phases succeed. -/
namespace Ifupdown

open Successors

variable {α : Type} [DecidableEq α] {G : DepGraph α} {path : List α} {task : Task α}
  {c c' : α → Nat} {ok : Bool} {ev : List (Event α)}

theorem up_mono (h : Up G path task c ok c' ev) (x : α) : c x ≤ c' x := by
  induction h with
  | pending | template | nil => exact Nat.le_refl _
  | stopped _ _ _ ih => exact ih
  | failed _ _ _ _ ih => exact ih
  | done _ _ _ ih => rw [ref_apply]; omega
  | held _ _ ih => rw [ref_apply] at ih; omega
  | raised _ _ _ ihRun ihRest => rw [ref_apply] at ihRun; omega
  | broken _ _ ih => rw [ref_apply] at ih; omega

theorem up_no_destroy (h : Up G path task c ok c' ev) : completed .destroy ev = [] := by
  induction h with
  | pending | template | nil => rfl
  | stopped _ _ _ ih => exact ih
  | failed _ _ _ phases ih =>
    rw [completed_append, ih, completed_phasesFail_other (by decide) upPhases_nodup phases]
    rfl
  | done _ _ _ ih =>
    rw [completed_append, ih, completed_succeeded _ _ _ upPhases_nodup]
    rfl
  | held _ _ ih => exact ih
  | raised _ _ _ ihRun ihRest => rw [completed_append, ihRun, ihRest]; rfl
  | broken _ _ ih => exact ih

theorem up_starts_other (h : Up G path task c ok c' ev) (phase : Phase) (other : phase ∉ upPhases) :
    starts phase ev = [] := by
  induction h with
  | pending | template | nil => rfl
  | stopped _ _ _ ih => exact ih
  | failed _ _ _ phases ih => rw [starts_append, ih, starts_phasesFail_other other upPhases_nodup phases]; rfl
  | done _ _ _ ih => rw [starts_append, ih, starts_succeeded_other _ _ other]; rfl
  | held _ _ ih => exact ih
  | raised _ _ _ ihRun ihRest => rw [starts_append, ihRun, ihRest]; rfl
  | broken _ _ ih => exact ih

theorem up_configured (h : Up G path task c ok c' ev) (conf : Finset α) :
    configured conf ev = conf ∪ ups ev := configured_of_no_downs conf (up_no_destroy h)

/-- No phase is started twice for an interface: the interfaces on the path are pending, the
others have a count of zero when they are entered and a positive one from then on. -/
theorem up_starts_once (h : Up G path task c ok c' ev) (phase : Phase) :
    (starts phase ev).Nodup ∧
      ∀ j ∈ starts phase ev, j ∉ path ∧ (task.root = some j ∨ c j = 0 ∧ 0 < c' j) := by
  induction h with
  | pending | template | nil => simp
  | stopped _ _ _ ih =>
    refine ⟨ih.1, fun j member => ?_⟩
    obtain ⟨off, zero⟩ := ih.2 j member
    exact ⟨fun on => off (List.mem_cons_of_mem _ on), by simpa [Task.root] using Or.inr zero⟩
  | @failed path i c c' ev l last fresh _ _ phases ih =>
    have tail := starts_phasesFail phase upPhases_nodup phases
    have single : (starts phase last).Nodup ∧ ∀ j ∈ starts phase last, j = i := by
      refine ⟨tail.nodup (by split <;> simp), fun j member => ?_⟩
      have below := tail.subset member
      split at below <;> simp_all
    rw [starts_append]
    refine ⟨List.nodup_append.mpr ⟨ih.1, single.1, ?_⟩, fun j member => ?_⟩
    · intro a early b late same
      exact (ih.2 a early).1 (by rw [same, single.2 b late]; exact List.mem_cons_self)
    · rcases List.mem_append.mp member with early | late
      · obtain ⟨off, zero⟩ := ih.2 j early
        exact ⟨fun on => off (List.mem_cons_of_mem _ on), by simpa [Task.root] using Or.inr zero⟩
      · rw [single.2 j late]
        exact ⟨fresh, Or.inl rfl⟩
  | @done path i c c' ev l fresh _ deps ih =>
    have single : (starts phase (succeeded i l upPhases)).Nodup ∧
        ∀ j ∈ starts phase (succeeded i l upPhases), j = i := by
      rw [starts_succeeded phase i l upPhases_nodup]
      split <;> simp
    rw [starts_append]
    refine ⟨List.nodup_append.mpr ⟨ih.1, single.1, ?_⟩, fun j member => ?_⟩
    · intro a early b late same
      exact (ih.2 a early).1 (by rw [same, single.2 b late]; exact List.mem_cons_self)
    · rcases List.mem_append.mp member with early | late
      · obtain ⟨off, zero⟩ := ih.2 j early
        refine ⟨fun on => off (List.mem_cons_of_mem _ on), Or.inr ?_⟩
        have zero : c j = 0 ∧ 0 < c' j := by simpa [Task.root] using zero
        exact ⟨zero.1, by rw [ref_apply]; omega⟩
      · rw [single.2 j late]
        exact ⟨fresh, Or.inl rfl⟩
  | held counted rest ih =>
    refine ⟨ih.1, fun j member => ?_⟩
    obtain ⟨off, zero⟩ := ih.2 j member
    refine ⟨off, Or.inr ?_⟩
    simp only [Task.root, reduceCtorEq, false_or, ref_apply] at zero
    exact ⟨by omega, zero.2⟩
  | @raised c path d c₁ ev₁ ds ok c' ev₂ uncounted run rest ihRun ihRest =>
    have entered : ∀ j ∈ starts phase ev₁, j ∉ path ∧ c j = 0 ∧ 0 < c₁ j := by
      intro j member
      obtain ⟨off, root | zero⟩ := ihRun.2 j member
      · obtain rfl : d = j := by simpa [Task.root] using root
        have raised := up_mono run d
        rw [ref_self] at raised
        exact ⟨off, uncounted, by omega⟩
      · rw [ref_apply] at zero
        exact ⟨off, by omega, zero.2⟩
    have later : ∀ j ∈ starts phase ev₂, j ∉ path ∧ c₁ j = 0 ∧ 0 < c' j := by
      intro j member
      simpa [Task.root] using ihRest.2 j member
    have low := up_mono run
    have high := up_mono rest
    rw [starts_append]
    refine ⟨List.nodup_append.mpr ⟨ihRun.1, ihRest.1, ?_⟩, fun j member => ?_⟩
    · intro a early b late same
      have positive := (entered a early).2.2
      have zero := (later b late).2.1
      rw [same] at positive
      omega
    · rcases List.mem_append.mp member with early | late
      · obtain ⟨off, zero, positive⟩ := entered j early
        exact ⟨off, Or.inr ⟨zero, Nat.lt_of_lt_of_le positive (high j)⟩⟩
      · obtain ⟨off, zero, positive⟩ := later j late
        have before := low j
        rw [ref_apply] at before
        exact ⟨off, Or.inr ⟨by omega, positive⟩⟩
  | @broken c path d c' ev ds uncounted run ih =>
    refine ⟨ih.1, fun j member => ?_⟩
    obtain ⟨off, root | zero⟩ := ih.2 j member
    · obtain rfl : d = j := by simpa [Task.root] using root
      have raised := up_mono run d
      rw [ref_self] at raised
      exact ⟨off, Or.inr ⟨uncounted, by omega⟩⟩
    · rw [ref_apply] at zero
      exact ⟨off, Or.inr ⟨by omega, zero.2⟩⟩

theorem up_started (h : Up G path task c ok c' ev) {j : α} (member : j ∈ ups ev ∨ j ∈ failures ev) :
    j ∈ starts .create ev := by
  induction h with
  | pending | template | nil => simp at member
  | stopped _ _ _ ih => exact ih member
  | failed _ _ _ phases ih =>
    rw [starts_append, List.mem_append]
    rw [ups_append, failures_append, ups_phasesFail phases, failures_phasesFail phases] at member
    simp only [Finset.union_empty, List.mem_append, List.mem_singleton] at member
    rcases member with up | early | rfl
    · exact Or.inl (ih (Or.inl up))
    · exact Or.inl (ih (Or.inr early))
    · exact Or.inr (starts_phasesFail_head phases)
  | done _ _ _ ih =>
    rw [starts_append, List.mem_append, starts_succeeded _ _ _ upPhases_nodup]
    rw [ups_append, failures_append, ups_succeeded, failures_succeeded, List.append_nil,
      Finset.mem_union, Finset.mem_singleton] at member
    rcases member with (up | rfl) | fails
    · exact Or.inl (ih (Or.inl up))
    · exact Or.inr (by simp [show Phase.create ∈ upPhases by decide])
    · exact Or.inl (ih (Or.inr fails))
  | held _ _ ih => exact ih member
  | raised _ _ _ ihRun ihRest =>
    rw [starts_append, List.mem_append]
    rw [ups_append, failures_append, Finset.mem_union, List.mem_append] at member
    rcases member with (up | up) | (fails | fails)
    · exact Or.inl (ihRun (Or.inl up))
    · exact Or.inr (ihRest (Or.inl up))
    · exact Or.inl (ihRun (Or.inr fails))
    · exact Or.inr (ihRest (Or.inr fails))
  | broken _ _ ih => exact ih member

theorem up_ups_fresh (h : Up G path task c ok c' ev) {j : α} (member : j ∈ ups ev) :
    j ∉ path ∧ (task.root = some j ∨ c j = 0 ∧ 0 < c' j) :=
  (up_starts_once h .create).2 j (up_started h (Or.inl member))

theorem up_ups_entered (h : Up G path (.deps ds) c ok c' ev) {j : α} (member : j ∈ ups ev) :
    j ∉ path ∧ c j = 0 ∧ 0 < c' j := by
  obtain ⟨off, root | zero⟩ := up_ups_fresh h member
  · cases root
  · exact ⟨off, zero⟩

/-- A dependency and those behind it bring up different interfaces. -/
theorem ups_disjoint {c₁ : α → Nat} {ev₁ ev₂ : List (Event α)} (run : Up G path (.run d d) (ref c d) true c₁ ev₁)
    (rest : Up G path (.deps ds) c₁ ok c' ev₂) : Disjoint (ups ev₁) (ups ev₂) := by
  refine Finset.disjoint_left.mpr fun j early late => ?_
  have zero := (up_ups_entered rest late).2.1
  rcases (up_ups_fresh run early).2 with root | positive
  · obtain rfl : d = j := by simpa [Task.root] using root
    have raised := up_mono run d
    rw [ref_self] at raised
    omega
  · omega

/-- The count of each interface grows by one for its own bring-up and by one for each
edge to it from an interface brought up. -/
theorem up_counts (h : Up G path task c ok c' ev) (success : ok = true) (x : α) :
    c' x = c x + (if x ∈ ups ev then 1 else 0) + edges G.req (ups ev) x + task.rest.count x := by
  induction h with
  | pending => simp [Task.rest]
  | template | stopped | failed | broken => cases success
  | nil => simp [Task.rest]
  | @done path i c c' ev l fresh _ deps ih =>
    have apart : i ∉ ups ev := fun member => (up_ups_fresh deps member).1 List.mem_cons_self
    have grown := ih success
    rw [ref_apply, grown, ups_append, ups_succeeded, Finset.union_comm, ← Finset.insert_eq,
      edges_insert apart]
    simp only [Task.rest, Finset.mem_insert, List.count_nil]
    by_cases same : x = i
    · subst same; simp [apart]; omega
    · simp [same]; omega
  | @held c path ds d ok c' ev counted rest ih =>
    have grown := ih success
    rw [grown, ref_apply]
    simp only [Task.rest, List.count_cons, beq_iff_eq, eq_comm (a := x)]
    omega
  | @raised c path d c₁ ev₁ ds ok c' ev₂ uncounted run rest ihRun ihRest =>
    have apart := ups_disjoint run rest
    have grown := ihRest success
    rw [grown, ihRun rfl, ref_apply, ups_append, edges_union apart, indicator_union apart]
    simp only [Task.rest, List.count_cons, List.count_nil, beq_iff_eq, eq_comm (a := x)]
    omega

theorem up_run_true (h : Up G path (.run i l) c true c' ev) : i ∈ path ∨ i ∈ ups ev := by
  cases h with
  | pending loop => exact Or.inl loop
  | done => exact Or.inr (by simp)

theorem up_phases (h : Up G path task c ok c' ev) {j : α} (up : j ∈ ups ev) {phase : Phase}
    (among : phase ∈ upPhases) : j ∈ starts phase ev := by
  induction h with
  | pending | template | nil => simp at up
  | stopped _ _ _ ih => exact ih up
  | failed _ _ _ phases ih =>
    rw [ups_append, ups_phasesFail phases, Finset.union_empty] at up
    rw [starts_append]
    exact List.mem_append_left _ (ih up)
  | done _ _ _ ih =>
    rw [ups_append, ups_succeeded, Finset.mem_union, Finset.mem_singleton] at up
    rw [starts_append, starts_succeeded _ _ _ upPhases_nodup, if_pos among, List.mem_append, List.mem_singleton]
    exact up.imp_left ih
  | held _ _ ih => exact ih up
  | raised _ _ _ ihRun ihRest =>
    rw [ups_append, Finset.mem_union] at up
    rw [starts_append, List.mem_append]
    exact up.imp ihRun ihRest
  | broken _ _ ih => exact ih up

/-- A successful bring-up counts only interfaces that it configures or that are pending. -/
theorem up_counted (h : Up G path task c ok c' ev) (success : ok = true) {x : α} (counted : 0 < c' x) :
    0 < c x ∨ x ∈ ups ev ∨ x ∈ path := by
  induction h with
  | pending | nil => exact Or.inl counted
  | template | stopped | failed | broken => cases success
  | @done path i c c' ev l _ _ deps ih =>
    rw [ups_append, ups_succeeded, Finset.mem_union, Finset.mem_singleton]
    by_cases same : x = i
    · exact Or.inr (Or.inl (Or.inr same))
    · rw [ref_apply, if_neg same] at counted
      rcases ih success counted with before | up | pending
      · exact Or.inl before
      · exact Or.inr (Or.inl (Or.inl up))
      · exact Or.inr (Or.inr ((List.mem_cons.mp pending).resolve_left same))
  | @held c path ds d ok c' ev held rest ih =>
    rcases ih success counted with before | later
    · rw [ref_apply] at before
      by_cases same : x = d
      · exact Or.inl (same ▸ held)
      · rw [if_neg same] at before
        exact Or.inl before
    · exact Or.inr later
  | @raised c path d c₁ ev₁ ds ok c' ev₂ _ run rest ihRun ihRest =>
    rw [ups_append, Finset.mem_union]
    rcases ihRest success counted with before | up | pending
    · rcases ihRun rfl before with first | up | pending
      · by_cases same : x = d
        · subst same
          rcases up_run_true run with pending | up
          · exact Or.inr (Or.inr pending)
          · exact Or.inr (Or.inl (Or.inl up))
        · rw [ref_apply, if_neg same] at first
          exact Or.inl first
      · exact Or.inr (Or.inl (Or.inl up))
      · exact Or.inr (Or.inr pending)
    · exact Or.inr (Or.inl (Or.inr up))
    · exact Or.inr (Or.inr pending)

theorem up_dependency_counted (h : Up G path task c true c' ev) {i d : α} (up : i ∈ ups ev)
    (edge : d ∈ G.req i) : 0 < c' d := by
  have grown := up_counts h rfl d
  have edges := edges_pos.mpr ⟨i, up, edge⟩
  omega

theorem up_success_failures (h : Up G path task c ok c' ev) (success : ok = true) : failures ev = [] := by
  induction h with
  | pending | nil => rfl
  | template | stopped | failed | broken => cases success
  | done _ _ _ ih => rw [failures_append, ih success, failures_succeeded]; rfl
  | held _ _ ih => exact ih success
  | raised _ _ _ ihRun ihRest => rw [failures_append, ihRun rfl, ihRest success]; rfl

theorem up_failures_fresh (h : Up G path task c ok c' ev) {f : α} (fails : f ∈ failures ev) : f ∉ path :=
  ((up_starts_once h .create).2 f (up_started h (Or.inr fails))).1

/-- A bring-up is stopped by one failed phase or by a template. -/
theorem up_blocked (h : Up G path task c ok c' ev) (stopped : ok = false) :
    (∃ f, failures ev = [f]) ∨
      ∃ d ∈ task.names, ∃ t, Relation.ReflTransGen (Edge G.req) d t ∧ G.template t = true := by
  induction h with
  | pending | done | nil => cases stopped
  | @template path i l c _ template => exact Or.inr ⟨i, by simp [Task.names], i, .refl, template⟩
  | @stopped path i c c' ev l _ _ _ ih =>
    refine (ih stopped).imp id ?_
    rintro ⟨d, edge, t, walk, template⟩
    exact ⟨i, by simp [Task.names], t, .head edge walk, template⟩
  | failed _ _ deps phases =>
    rw [failures_append, up_success_failures deps rfl, failures_phasesFail phases]
    exact Or.inl ⟨_, rfl⟩
  | held _ _ ih =>
    refine (ih stopped).imp id ?_
    rintro ⟨d, member, walk⟩
    exact ⟨d, List.mem_cons_of_mem _ member, walk⟩
  | raised _ run _ _ ihRest =>
    refine (ihRest stopped).imp ?_ ?_
    · rintro ⟨f, fails⟩
      exact ⟨f, by rw [failures_append, up_success_failures run rfl, fails]; rfl⟩
    · rintro ⟨d, member, walk⟩
      exact ⟨d, List.mem_cons_of_mem _ member, walk⟩
  | @broken c path d c' ev ds _ _ ih =>
    refine (ih stopped).imp id ?_
    rintro ⟨d', member, walk⟩
    obtain rfl : d' = d := List.mem_singleton.mp member
    exact ⟨d', List.mem_cons_self, walk⟩

theorem up_quiet (h : Up G [] (.run i l) c ok c' ev) (none : NoTemplate G i) (quiet : failures ev = []) :
    ok = true ∨ c' = c ∧ ev = [] := by
  cases h with
  | pending | done => exact Or.inl rfl
  | template => exact Or.inr ⟨rfl, rfl⟩
  | stopped _ _ deps =>
    rcases up_blocked deps rfl with ⟨f, fails⟩ | template
    · rw [quiet] at fails
      cases fails
    · exact absurd template (noTemplate_deps none)
  | failed _ _ _ phases => simp [failures_phasesFail phases] at quiet

theorem up_successful (ordinary : ∀ x, G.template x = false) (h : Up G path task c ok c' ev)
    (quiet : failures ev = []) : ok = true := by
  by_contra stopped
  rcases up_blocked h (Bool.eq_false_of_not_eq_true stopped) with ⟨f, fails⟩ | ⟨-, -, t, -, template⟩
  · rw [quiet] at fails
    cases fails
  · rw [ordinary t] at template
    cases template

/-- A bring-up stays within any set that is closed under uncounted dependencies. -/
theorem up_within (h : Up G path task c ok c' ev) {b : α → Nat} {s : Set α}
    (closed : ∀ i ∈ s, ∀ d ∈ G.req i, b d = 0 → d ∈ s) (low : ∀ x, b x ≤ c x)
    (root : ∀ i, task.root = some i → i ∈ s) (rest : ∀ d ∈ task.rest, b d = 0 → d ∈ s)
    (phase : Phase) {j : α} (member : j ∈ starts phase ev) : j ∈ s := by
  induction h with
  | pending | template | nil => simp at member
  | stopped _ _ _ ih => exact ih low (by simp [Task.root]) (closed _ (root _ rfl)) member
  | failed _ _ _ phases ih =>
    rw [starts_append, List.mem_append] at member
    rcases member with early | late
    · exact ih low (by simp [Task.root]) (closed _ (root _ rfl)) early
    · have single := (starts_phasesFail phase upPhases_nodup phases).subset late
      split at single <;> simp at single
      exact single ▸ root _ rfl
  | done _ _ _ ih =>
    rw [starts_append, List.mem_append, starts_succeeded phase _ _ upPhases_nodup] at member
    rcases member with early | late
    · exact ih low (by simp [Task.root]) (closed _ (root _ rfl)) early
    · split at late <;> simp at late
      exact late ▸ root _ rfl
  | held _ _ ih =>
    refine ih (fun x => (low x).trans ?_) (by simp [Task.root])
      (fun d later => rest d (List.mem_cons_of_mem _ later)) member
    rw [ref_apply]
    omega
  | @raised c path d c₁ ev₁ ds ok c' ev₂ uncounted run _ ihRun ihRest =>
    have grown (x) : b x ≤ ref c d x := (low x).trans (by rw [ref_apply]; omega)
    have zero := low d
    rw [starts_append, List.mem_append] at member
    rcases member with early | late
    · refine ihRun grown (fun i same => ?_) (by simp [Task.rest]) early
      obtain rfl : d = i := by simpa [Task.root] using same
      exact rest d List.mem_cons_self (by omega)
    · exact ihRest (fun x => (grown x).trans (up_mono run x)) (by simp [Task.root])
        (fun d later => rest d (List.mem_cons_of_mem _ later)) late
  | @broken c path d c' ev ds uncounted run ih =>
    have zero := low d
    refine ih (fun x => (low x).trans (by rw [ref_apply]; omega)) (fun i same => ?_)
      (by simp [Task.rest]) member
    obtain rfl : d = i := by simpa [Task.root] using same
    exact rest d List.mem_cons_self (by omega)

theorem up_dependent (h : Up G path task c ok c' ev) {j : α} (member : j ∈ starts .create ev) :
    task.root = some j ∨ j ∈ task.rest ∨
      ∃ i, j ∈ G.req i ∧ (task.root = some i ∨ c i = 0 ∧ 0 < c' i) := by
  induction h with
  | pending | template | nil => simp at member
  | @stopped path i c c' ev l _ _ _ ih =>
    obtain root | edge | ⟨k, edge, root | counted⟩ := ih member
    · cases root
    · exact Or.inr (Or.inr ⟨i, edge, Or.inl rfl⟩)
    · cases root
    · exact Or.inr (Or.inr ⟨k, edge, Or.inr counted⟩)
  | @failed path i c c' ev l last _ _ _ phases ih =>
    rw [starts_append, List.mem_append] at member
    rcases member with early | late
    · obtain root | edge | ⟨k, edge, root | counted⟩ := ih early
      · cases root
      · exact Or.inr (Or.inr ⟨i, edge, Or.inl rfl⟩)
      · cases root
      · exact Or.inr (Or.inr ⟨k, edge, Or.inr counted⟩)
    · have single := (starts_phasesFail .create upPhases_nodup phases).subset late
      split at single <;> simp at single
      exact Or.inl (by rw [single]; rfl)
  | @done path i c c' ev l _ _ _ ih =>
    rw [starts_append, List.mem_append, starts_succeeded .create _ _ upPhases_nodup] at member
    rcases member with early | late
    · obtain root | edge | ⟨k, edge, root | counted⟩ := ih early
      · cases root
      · exact Or.inr (Or.inr ⟨i, edge, Or.inl rfl⟩)
      · cases root
      · exact Or.inr (Or.inr ⟨k, edge, Or.inr ⟨counted.1, by rw [ref_apply]; omega⟩⟩)
    · split at late <;> simp at late
      exact Or.inl (by rw [late]; rfl)
  | @held c path ds d ok c' ev _ _ ih =>
    obtain root | later | ⟨k, edge, root | counted⟩ := ih member
    · cases root
    · exact Or.inr (Or.inl (List.mem_cons_of_mem _ later))
    · cases root
    · have before := counted.1
      rw [ref_apply] at before
      exact Or.inr (Or.inr ⟨k, edge, Or.inr ⟨by omega, counted.2⟩⟩)
  | @raised c path d c₁ ev₁ ds ok c' ev₂ uncounted run rest ihRun ihRest =>
    have low := up_mono run
    have high := up_mono rest
    rw [starts_append, List.mem_append] at member
    rcases member with early | late
    · obtain root | none | ⟨k, edge, root | counted⟩ := ihRun early
      · obtain rfl : d = j := by simpa [Task.root] using root
        exact Or.inr (Or.inl List.mem_cons_self)
      · cases none
      · obtain rfl : d = k := by simpa [Task.root] using root
        have raised := low d
        have kept := high d
        rw [ref_self] at raised
        exact Or.inr (Or.inr ⟨d, edge, Or.inr ⟨uncounted, by omega⟩⟩)
      · have before := counted.1
        have kept := high k
        rw [ref_apply] at before
        exact Or.inr (Or.inr ⟨k, edge, Or.inr ⟨by omega, by omega⟩⟩)
    · obtain root | later | ⟨k, edge, root | counted⟩ := ihRest late
      · cases root
      · exact Or.inr (Or.inl (List.mem_cons_of_mem _ later))
      · cases root
      · have before := low k
        rw [ref_apply] at before
        exact Or.inr (Or.inr ⟨k, edge, Or.inr ⟨by omega, counted.2⟩⟩)
  | @broken c path d c' ev ds uncounted run ih =>
    obtain root | none | ⟨k, edge, root | counted⟩ := ih member
    · obtain rfl : d = j := by simpa [Task.root] using root
      exact Or.inr (Or.inl List.mem_cons_self)
    · cases none
    · obtain rfl : d = k := by simpa [Task.root] using root
      have raised := up_mono run d
      rw [ref_self] at raised
      exact Or.inr (Or.inr ⟨d, edge, Or.inr ⟨uncounted, by omega⟩⟩)
    · have before := counted.1
      rw [ref_apply] at before
      exact Or.inr (Or.inr ⟨k, edge, Or.inr ⟨by omega, counted.2⟩⟩)

theorem up_spreads (h : Up G path task c ok c' ev) {b : α → Nat} {s : Set α}
    (closed : ∀ i ∈ s, ∀ d ∈ G.req i, b d = 0 → d ∈ s) (low : ∀ x, b x ≤ c x)
    (root : ∀ i, task.root = some i → i ∈ s) (rest : ∀ d ∈ task.rest, b d = 0 → d ∈ s)
    (start : ∀ x, 0 < c x → 0 < b x ∨ x ∈ s) {x : α} (counted : 0 < c' x) : 0 < b x ∨ x ∈ s := by
  induction h generalizing x with
  | pending | template | nil => exact start x counted
  | stopped _ _ _ ih => exact ih low (by simp [Task.root]) (closed _ (root _ rfl)) start counted
  | failed _ _ _ _ ih => exact ih low (by simp [Task.root]) (closed _ (root _ rfl)) start counted
  | @done path i _ _ _ _ _ _ _ ih =>
    by_cases same : x = i
    · exact Or.inr (root x (congrArg some same.symm))
    · rw [ref_apply, if_neg same] at counted
      exact ih low (by simp [Task.root]) (closed _ (root _ rfl)) start counted
  | @held c path ds d _ _ _ held _ ih =>
    refine ih (fun y => (low y).trans ?_) (by simp [Task.root])
      (fun d later => rest d (List.mem_cons_of_mem _ later)) ?_ counted
    · rw [ref_apply]
      omega
    · intro y positive
      by_cases same : y = d
      · exact start y (same ▸ held)
      · rw [ref_apply, if_neg same] at positive
        exact start y positive
  | @raised c path d c₁ ev₁ ds ok c' ev₂ uncounted run _ ihRun ihRest =>
    have grown (y) : b y ≤ ref c d y := (low y).trans (by rw [ref_apply]; omega)
    have entered : d ∈ s := rest d List.mem_cons_self (by have := low d; omega)
    refine ihRest (fun y => (grown y).trans (up_mono run y)) (by simp [Task.root])
      (fun d later => rest d (List.mem_cons_of_mem _ later)) (fun y positive => ?_) counted
    refine ihRun grown (fun i same => Option.some.inj same ▸ entered) (by simp [Task.rest]) ?_ positive
    intro z positive
    by_cases same : z = d
    · exact Or.inr (same ▸ entered)
    · rw [ref_apply, if_neg same] at positive
      exact start z positive
  | @broken c path d c' ev ds uncounted _ ih =>
    have entered : d ∈ s := rest d List.mem_cons_self (by have := low d; omega)
    refine ih (fun y => (low y).trans (by rw [ref_apply]; omega)) (fun i same => Option.some.inj same ▸ entered)
      (by simp [Task.rest]) ?_ counted
    intro z positive
    by_cases same : z = d
    · exact Or.inr (same ▸ entered)
    · rw [ref_apply, if_neg same] at positive
      exact start z positive

end Ifupdown
