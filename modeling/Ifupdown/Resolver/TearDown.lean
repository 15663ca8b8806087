import Ifupdown.Resolver.Relations

/-! What a teardown does to the counts and in which order it goes. -/
namespace Ifupdown

open Successors

variable {α : Type} [DecidableEq α] {G : DepGraph α} {path : List α} {task : Task α}
  {c c' : α → Nat} {ok : Bool} {ev : List (Event α)}

theorem down_mono (h : Down G path task c ok c' ev) (x : α) : c' x ≤ c x := by
  induction h with
  | pending | template | failed | nil => exact Nat.le_refl _
  | stopped _ _ _ ih => exact ih
  | done _ _ _ ih => rw [unref_apply]; omega
  | held _ _ ih => rw [unref_apply] at ih; omega
  | kept _ _ _ ih => rw [unref_apply] at ih; omega
  | released _ _ _ _ ihRun ihRest => rw [unref_apply] at ihRun; omega
  | broken _ _ _ ih => rw [unref_apply] at ih; omega

theorem down_no_postUp (h : Down G path task c ok c' ev) : completed .postUp ev = [] := by
  induction h with
  | pending | template | nil => rfl
  | failed _ _ phases => exact completed_phasesFail_other (by decide) downPhases_nodup phases
  | stopped _ _ _ ih =>
    rw [completed_append, ih, completed_succeeded _ _ _ downPhases_nodup]
    rfl
  | done _ _ _ ih =>
    rw [completed_append, ih, completed_succeeded _ _ _ downPhases_nodup]
    rfl
  | held _ _ ih => exact ih
  | kept _ _ _ ih => exact ih
  | released _ _ _ _ ihRun ihRest => rw [completed_append, ihRun, ihRest]; rfl
  | broken _ _ _ ih => exact ih

theorem down_configured (h : Down G path task c ok c' ev) (conf : Finset α) :
    configured conf ev = conf \ downs ev := configured_of_no_ups conf (down_no_postUp h)

theorem down_implicit (h : Down G path task c ok c' ev) (phase : Phase) {j : α}
    (member : j ∈ starts phase ev) : j ∉ path ∧ (task.root = some j ∨ G.explicit j = false) := by
  induction h with
  | pending | template | nil => simp at member
  | failed fresh _ phases =>
    have single := (starts_phasesFail phase downPhases_nodup phases).subset member
    split at single <;> simp at single
    subst single
    exact ⟨fresh, Or.inl rfl⟩
  | stopped fresh _ _ ih | done fresh _ _ ih =>
    rw [starts_append, List.mem_append, starts_succeeded phase _ _ downPhases_nodup] at member
    rcases member with early | late
    · split at early <;> simp at early
      subst early
      exact ⟨fresh, Or.inl rfl⟩
    · obtain ⟨off, root | implicit⟩ := ih late
      · cases root
      · exact ⟨fun on => off (List.mem_cons_of_mem _ on), Or.inr implicit⟩
  | held _ _ ih => exact ih member
  | kept _ _ _ ih => exact ih member
  | @released c d _ _ _ _ _ _ _ _ implicit _ _ ihRun ihRest =>
    rw [starts_append, List.mem_append] at member
    rcases member with early | late
    · obtain ⟨off, root | implicit⟩ := ihRun early
      · obtain rfl : d = j := by simpa [Task.root] using root
        exact ⟨off, Or.inr implicit⟩
      · exact ⟨off, Or.inr implicit⟩
    · exact ihRest late
  | @broken c d _ _ _ _ _ implicit _ ih =>
    obtain ⟨off, root | implicit⟩ := ih member
    · obtain rfl : d = j := by simpa [Task.root] using root
      exact ⟨off, Or.inr implicit⟩
    · exact ⟨off, Or.inr implicit⟩

theorem down_within (h : Down G path task c ok c' ev) {s : Set α} (closed : ∀ i ∈ s, ∀ d ∈ G.req i, d ∈ s)
    (root : ∀ i, task.root = some i → i ∈ s) (rest : ∀ d ∈ task.rest, d ∈ s) (phase : Phase) {j : α}
    (member : j ∈ starts phase ev) : j ∈ s := by
  induction h with
  | pending | template | nil => simp at member
  | failed _ _ phases =>
    have single := (starts_phasesFail phase downPhases_nodup phases).subset member
    split at single <;> simp at single
    exact single ▸ root _ rfl
  | stopped _ _ _ ih | done _ _ _ ih =>
    rw [starts_append, List.mem_append, starts_succeeded phase _ _ downPhases_nodup] at member
    rcases member with early | late
    · split at early <;> simp at early
      exact early ▸ root _ rfl
    · exact ih (by simp [Task.root]) (closed _ (root _ rfl)) late
  | held _ _ ih =>
    exact ih (by simp [Task.root]) (fun d later => rest d (List.mem_cons_of_mem _ later)) member
  | kept _ _ _ ih =>
    exact ih (by simp [Task.root]) (fun d later => rest d (List.mem_cons_of_mem _ later)) member
  | released _ _ _ _ ihRun ihRest =>
    rw [starts_append, List.mem_append] at member
    rcases member with early | late
    · refine ihRun ?_ (by simp [Task.rest]) early
      rintro i ⟨⟩
      exact rest _ List.mem_cons_self
    · exact ihRest (by simp [Task.root]) (fun d later => rest d (List.mem_cons_of_mem _ later)) late
  | broken _ _ _ ih =>
    refine ih ?_ (by simp [Task.rest]) member
    rintro i ⟨⟩
    exact rest _ List.mem_cons_self

theorem down_started (h : Down G path task c ok c' ev) {j : α} (member : j ∈ downs ev ∨ j ∈ failures ev) :
    j ∈ starts .preDown ev := by
  induction h with
  | pending | template | nil => simp at member
  | failed _ _ phases =>
    rw [downs_phasesFail phases, failures_phasesFail phases] at member
    obtain rfl : j = _ := by simpa using member
    exact starts_phasesFail_head phases
  | stopped _ _ _ ih | done _ _ _ ih =>
    rw [starts_append, List.mem_append, starts_succeeded _ _ _ downPhases_nodup]
    rw [downs_append, failures_append, downs_succeeded, failures_succeeded, List.nil_append,
      Finset.mem_union, Finset.mem_singleton] at member
    rcases member with (rfl | down) | fails
    · exact Or.inl (by simp [show Phase.preDown ∈ downPhases by decide])
    · exact Or.inr (ih (Or.inl down))
    · exact Or.inr (ih (Or.inr fails))
  | held _ _ ih => exact ih member
  | kept _ _ _ ih => exact ih member
  | released _ _ _ _ ihRun ihRest =>
    rw [starts_append, List.mem_append]
    rw [downs_append, failures_append, Finset.mem_union, List.mem_append] at member
    rcases member with (down | down) | (fails | fails)
    · exact Or.inl (ihRun (Or.inl down))
    · exact Or.inr (ihRest (Or.inl down))
    · exact Or.inl (ihRun (Or.inr fails))
    · exact Or.inr (ihRest (Or.inr fails))
  | broken _ _ _ ih => exact ih member

theorem down_complete (h : Down G path task c ok c' ev) {j : α} (member : j ∈ downs ev) {phase : Phase}
    (among : phase ∈ downPhases) : j ∈ completed phase ev := by
  induction h with
  | pending | template | nil => simp at member
  | failed _ _ phases => simp [downs_phasesFail phases] at member
  | stopped _ _ _ ih | done _ _ _ ih =>
    rw [downs_append, downs_succeeded, Finset.mem_union, Finset.mem_singleton] at member
    rw [completed_append, completed_succeeded _ _ _ downPhases_nodup, if_pos among, List.mem_append,
      List.mem_singleton]
    exact member.imp_right ih
  | held _ _ ih => exact ih member
  | kept _ _ _ ih => exact ih member
  | released _ _ _ _ ihRun ihRest =>
    rw [downs_append, Finset.mem_union] at member
    rw [completed_append, List.mem_append]
    exact member.imp ihRun ihRest
  | broken _ _ _ ih => exact ih member

theorem down_run_true (h : Down G path (.run i l) c true c' ev) : i ∈ path ∨ i ∈ downs ev := by
  cases h with
  | pending loop => exact Or.inl loop
  | done => exact Or.inr (by simp)

theorem down_success_failures (h : Down G path task c ok c' ev) (success : ok = true) :
    failures ev = [] := by
  induction h with
  | pending | nil => rfl
  | template | stopped | failed | broken => cases success
  | done _ _ _ ih => rw [failures_append, ih success, failures_succeeded]; rfl
  | held _ _ ih => exact ih success
  | kept _ _ _ ih => exact ih success
  | released _ _ _ _ ihRun ihRest => rw [failures_append, ihRun rfl, ihRest success]; rfl

/-- A teardown is stopped by one failed phase or by a template. -/
theorem down_blocked (h : Down G path task c ok c' ev) (stopped : ok = false) :
    (∃ f, failures ev = [f]) ∨
      ∃ d ∈ task.names, ∃ t, Relation.ReflTransGen (Edge G.req) d t ∧ G.template t = true := by
  induction h with
  | pending | done | nil => cases stopped
  | @template path i l c _ template => exact Or.inr ⟨i, by simp [Task.names], i, .refl, template⟩
  | failed _ _ phases => exact Or.inl ⟨_, failures_phasesFail phases⟩
  | @stopped path i c c' ev l _ _ _ ih =>
    rw [failures_append, failures_succeeded, List.nil_append]
    refine (ih stopped).imp id ?_
    rintro ⟨d, edge, t, walk, template⟩
    exact ⟨i, by simp [Task.names], t, .head edge walk, template⟩
  | held _ _ ih =>
    refine (ih stopped).imp id ?_
    rintro ⟨d, member, walk⟩
    exact ⟨d, List.mem_cons_of_mem _ member, walk⟩
  | kept _ _ _ ih =>
    refine (ih stopped).imp id ?_
    rintro ⟨d, member, walk⟩
    exact ⟨d, List.mem_cons_of_mem _ member, walk⟩
  | released _ _ run _ _ ihRest =>
    refine (ihRest stopped).imp ?_ ?_
    · rintro ⟨f, fails⟩
      exact ⟨f, by rw [failures_append, down_success_failures run rfl, fails]; rfl⟩
    · rintro ⟨d, member, walk⟩
      exact ⟨d, List.mem_cons_of_mem _ member, walk⟩
  | @broken c d path c' ev ds _ _ _ ih =>
    refine (ih stopped).imp id ?_
    rintro ⟨d', member, walk⟩
    obtain rfl : d' = d := List.mem_singleton.mp member
    exact ⟨d', List.mem_cons_self, walk⟩

theorem down_quiet (h : Down G [] (.run i l) c ok c' ev) (none : NoTemplate G i)
    (quiet : failures ev = []) : ok = true ∨ c' = c ∧ ev = [] := by
  cases h with
  | pending | done => exact Or.inl rfl
  | template => exact Or.inr ⟨rfl, rfl⟩
  | stopped _ _ deps =>
    rw [failures_append, failures_succeeded, List.nil_append] at quiet
    rcases down_blocked deps rfl with ⟨f, fails⟩ | template
    · rw [quiet] at fails
      cases fails
    · exact absurd template (noTemplate_deps none)
  | failed _ _ phases => simp [failures_phasesFail phases] at quiet

theorem down_successful (ordinary : ∀ x, G.template x = false) (h : Down G path task c ok c' ev)
    (quiet : failures ev = []) : ok = true := by
  by_contra stopped
  rcases down_blocked h (Bool.eq_false_of_not_eq_true stopped) with ⟨f, fails⟩ | ⟨-, -, t, -, template⟩
  · rw [quiet] at fails
    cases fails
  · rw [ordinary t] at template
    cases template

/-- The count of an interface falls by at least one for its own teardown and one for each
edge to it from an interface taken down, as far as it can. -/
theorem down_counts (h : Down G path task c ok c' ev) (success : ok = true) (x : α) :
    c' x ≤ c x - ((if x ∈ downs ev then 1 else 0) + edges G.req (downs ev) x + task.rest.count x) := by
  induction h with
  | pending => simp [Task.rest]
  | template | stopped | failed | broken => cases success
  | nil => simp [Task.rest]
  | @done path i c c' ev l _ _ deps ih =>
    have fallen := ih success
    have own := edges_union_le (g := G.req) {i} (downs ev) x
    rw [edges_singleton] at own
    have torn : (if x ∈ {i} ∪ downs ev then 1 else 0) ≤
        (if x = i then 1 else 0) + if x ∈ downs ev then 1 else 0 :=
      indicator_le (by rw [Finset.mem_union, Finset.mem_singleton]; exact id)
    rw [unref_apply, downs_append, downs_succeeded]
    simp only [Task.rest, List.count_nil] at fallen ⊢
    omega
  | @held c d path ds ok c' ev _ _ ih =>
    have fallen := ih success
    rw [unref_apply] at fallen
    simp only [Task.rest, List.count_cons, beq_iff_eq, eq_comm (a := d)] at fallen ⊢
    omega
  | @kept c d path ds ok c' ev _ _ _ ih =>
    have fallen := ih success
    rw [unref_apply] at fallen
    simp only [Task.rest, List.count_cons, beq_iff_eq, eq_comm (a := d)] at fallen ⊢
    omega
  | @released c d path c₁ ev₁ ds ok c' ev₂ _ _ _ _ ihRun ihRest =>
    have first := ihRun rfl
    have fallen := ihRest success
    have union := edges_union_le (g := G.req) (downs ev₁) (downs ev₂) x
    have torn : (if x ∈ downs ev₁ ∪ downs ev₂ then 1 else 0) ≤
        (if x ∈ downs ev₁ then 1 else 0) + if x ∈ downs ev₂ then 1 else 0 :=
      indicator_le Finset.mem_union.mp
    rw [unref_apply] at first
    rw [downs_append]
    simp only [Task.rest, List.count_cons, List.count_nil, beq_iff_eq, eq_comm (a := d)] at first fallen ⊢
    omega

/-- After a successful teardown nothing counts the interfaces that it took down, but for the
one that the command names. -/
theorem down_uncounted (h : Down G path task c ok c' ev) (success : ok = true) {j : α}
    (down : j ∈ downs ev) : c' j = 0 ∨ task.root = some j ∧ 1 < c j := by
  induction h with
  | pending | nil => simp at down
  | template | stopped | failed | broken => cases success
  | @done path i c c' ev l _ _ deps ih =>
    rw [downs_append, downs_succeeded, Finset.mem_union, Finset.mem_singleton] at down
    rw [unref_apply]
    rcases down with rfl | down
    · have low := down_mono deps j
      by_cases once : c j ≤ 1
      · left; rw [if_pos rfl]; omega
      · exact Or.inr ⟨rfl, by omega⟩
    · rcases ih success down with zero | root
      · left; omega
      · cases root.1
  | held _ _ ih =>
    rcases ih success down with zero | root
    · exact Or.inl zero
    · cases root.1
  | kept _ _ _ ih =>
    rcases ih success down with zero | root
    · exact Or.inl zero
    · cases root.1
  | @released c d path c₁ ev₁ ds ok c' ev₂ unneeded _ run rest ihRun ihRest =>
    rw [downs_append, Finset.mem_union] at down
    have low := down_mono rest j
    rcases down with early | late
    · rcases ihRun rfl early with zero | ⟨root, many⟩
      · left; omega
      · obtain rfl : d = j := by simpa [Task.root] using root
        omega
    · rcases ihRest success late with zero | root
      · exact Or.inl zero
      · cases root.1

/-- What a successful teardown leaves up was not reached, is explicit or is still needed. -/
theorem down_left (h : Down G path task c ok c' ev) (success : ok = true) {j : α}
    (left : j ∉ downs ev) (fresh : j ∉ path) (implicit : G.explicit j = false) :
    (c' j = c j ∧ j ∉ task.rest ∧ ∀ i ∈ downs ev, j ∉ G.req i) ∨ 1 < c' j := by
  induction h with
  | pending | nil => simp [Task.rest]
  | template | stopped | failed | broken => cases success
  | @done path i c c' ev l _ _ deps ih =>
    rw [downs_append, downs_succeeded, Finset.mem_union, Finset.mem_singleton, not_or] at left
    have outside : j ∉ i :: path := by simp [left.1, fresh]
    rw [unref_apply, if_neg left.1, downs_append, downs_succeeded]
    rcases ih success left.2 outside with ⟨same, absent, apart⟩ | needed
    · refine Or.inl ⟨same, by simp [Task.rest], fun k member => ?_⟩
      rcases Finset.mem_union.mp member with here | deep
      · exact Finset.mem_singleton.mp here ▸ absent
      · exact apart k deep
    · exact Or.inr needed
  | @held c d path ds ok c' ev needed _ ih =>
    rcases ih success left fresh with ⟨same, absent, apart⟩ | needed
    · by_cases this : j = d
      · subst this
        exact Or.inr (by omega)
      · rw [unref_apply, if_neg this] at same
        exact Or.inl ⟨same, by simpa [Task.rest, this] using absent, apart⟩
    · exact Or.inr needed
  | @kept c d path ds ok c' ev _ explicit _ ih =>
    have other : j ≠ d := by
      rintro rfl
      rw [implicit] at explicit
      cases explicit
    rcases ih success left fresh with ⟨same, absent, apart⟩ | needed
    · rw [unref_apply, if_neg other] at same
      exact Or.inl ⟨same, by simpa [Task.rest, other] using absent, apart⟩
    · exact Or.inr needed
  | @released c d path c₁ ev₁ ds ok c' ev₂ _ _ run rest ihRun ihRest =>
    rw [downs_append, Finset.mem_union, not_or] at left
    have other : j ≠ d := by
      rintro rfl
      rcases down_run_true run with loop | down
      · exact fresh loop
      · exact left.1 down
    rcases ihRest success left.2 fresh with ⟨same, absent, apart⟩ | needed
    · rcases ihRun rfl left.1 fresh with ⟨before, -, early⟩ | needed
      · rw [unref_apply, if_neg other] at before
        refine Or.inl ⟨by omega, by simpa [Task.rest, other] using absent, fun k member => ?_⟩
        rw [downs_append] at member
        rcases Finset.mem_union.mp member with first | second
        · exact early k first
        · exact apart k second
      · exact Or.inr (by omega)
    · exact Or.inr needed

/-- Sets of interfaces that a teardown of `root` must take down: each one was released so
often by the others that at most its own configuration is counted. -/
inductive Released (G : DepGraph α) (c : α → Nat) (root : α) : Finset α → Prop where
  | root : Released G c root {root}
  | release (before : Released G c root s) (implicit : G.explicit d = false)
      (reached : 0 < edges G.req s d) (few : c d ≤ edges G.req s d + 1) :
      Released G c root (insert d s)

theorem released_down (h : Down G [] (.run root l) c true c' ev) {s : Finset α}
    (released : Released G c root s) : s ⊆ downs ev := by
  induction released with
  | root =>
    have down := (down_run_true h).resolve_left List.not_mem_nil
    exact Finset.singleton_subset_iff.mpr down
  | @release s d _ implicit reached few ih =>
    refine Finset.insert_subset ?_ ih
    by_contra left
    have fallen := down_counts h rfl d
    have more := edges_mono (g := G.req) (x := d) ih
    rw [if_neg left] at fallen
    rcases down_left h rfl left List.not_mem_nil implicit with ⟨-, -, apart⟩ | needed
    · obtain ⟨i, member, edge⟩ := edges_pos.mp reached
      exact apart i (ih member) edge
    · simp only [Task.rest, List.count_nil] at fallen
      omega

/-- Whatever needs `root` is released with it. -/
def Freed (G : DepGraph α) (c : α → Nat) (root : α) : Prop :=
  ∃ s, Released G c root s ∧ c root ≤ edges G.req s root + 1

theorem freed_uncounted (h : Down G [] (.run root l) c true c' ev) (freed : Freed G c root) :
    c' root = 0 := by
  obtain ⟨s, released, few⟩ := freed
  have subset := released_down h released
  have fallen := down_counts h rfl root
  have more := edges_mono (g := G.req) (x := root) subset
  have down := (down_run_true h).resolve_left List.not_mem_nil
  rw [if_pos down] at fallen
  omega

end Ifupdown
