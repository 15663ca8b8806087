import Ifupdown.Resolver.ExactCounts
import Ifupdown.Resolver.RetryDown

/-! How often a teardown enters an interface. -/
namespace Ifupdown

open Successors

variable {α : Type} [DecidableEq α] {G : DepGraph α} {path : List α} {task : Task α} {conf : Finset α}
  {c c' c₁ c₂ : α → Nat} {ok : Bool} {ev ev₁ ev₂ : List (Event α)} {root l : α}

theorem down_reached (h : Down G path task c ok c' ev) {phase : Phase} {j : α} (member : j ∈ starts phase ev) :
    ∃ n ∈ task.names, Relation.ReflTransGen (Edge G.req) n j := by
  apply down_within h (s := {j | ∃ n ∈ task.names, Relation.ReflTransGen (Edge G.req) n j}) _ _ _ phase member
  · rintro i ⟨n, named, walk⟩ d edge
    exact ⟨n, named, walk.tail edge⟩
  · intro i root
    cases task with
    | run iface lifname =>
      obtain rfl := Option.some.inj root
      exact ⟨iface, List.mem_singleton.mpr rfl, .refl⟩
    | deps rest => cases root
  · intro d listed
    cases task with
    | run iface lifname => cases listed
    | deps rest => exact ⟨d, listed, .refl⟩

theorem down_unasked (acyclic : Acyclic G.req) (h : Down G path task c ok c' ev) (leads : Leads G path task)
    {p : α} (waits : p ∈ path) : edgesFrom G.req (starts .preDown ev) p = 0 := by
  apply edgesFrom_eq_zero
  intro i member edge
  obtain ⟨n, named, walk⟩ := down_reached h member
  apply acyclic p
  exact ((leads p waits n named).trans_left walk).tail edge

/-- Each time an interface is entered, what it requires is counted down. -/
theorem down_spent (h : Down G path task c ok c' ev) (success : ok = true) (x : α) :
    c' x ≤ c x - (edgesFrom G.req (starts .preDown ev) x + task.rest.count x) := by
  induction h with
  | pending | nil => simp [Task.rest]
  | template | stopped | failed | broken => cases success
  | @done path i c c' ev l _ _ _ ih =>
    have fallen := ih success
    rw [unref_apply, starts_append, starts_succeeded _ _ _ downPhases_nodup, edgesFrom_append]
    simp only [Task.rest, List.count_nil, show Phase.preDown ∈ downPhases by decide, if_true, edgesFrom_cons,
      edgesFrom_nil] at fallen ⊢
    omega
  | @held c d path ds ok c' ev _ _ ih | @kept c d path ds ok c' ev _ _ _ ih =>
    have fallen := ih success
    rw [unref_apply] at fallen
    simp only [Task.rest, List.count_cons, beq_iff_eq, eq_comm (a := d)] at fallen ⊢
    omega
  | @released c d path c₁ ev₁ ds ok c' ev₂ _ _ _ _ ihRun ihRest =>
    have first := ihRun rfl
    have fallen := ihRest success
    rw [unref_apply] at first
    rw [starts_append, edgesFrom_append]
    simp only [Task.rest, List.count_cons, List.count_nil, beq_iff_eq, eq_comm (a := d)] at first fallen ⊢
    omega

theorem down_passed (h : Down G path task c ok c' ev) (success : ok = true) {x : α}
    (passed : x ∉ starts .preDown ev) :
    c' x = c x - (edgesFrom G.req (starts .preDown ev) x + task.rest.count x) := by
  induction h with
  | pending | nil => simp [Task.rest]
  | template | stopped | failed | broken => cases success
  | @done path i c c' ev l _ _ _ ih =>
    rw [starts_append, starts_succeeded _ _ _ downPhases_nodup, if_pos (by decide), List.singleton_append,
      List.mem_cons, not_or] at passed
    have fallen := ih success passed.2
    rw [unref_apply, if_neg passed.1, starts_append, starts_succeeded _ _ _ downPhases_nodup, if_pos (by decide),
      List.singleton_append, edgesFrom_cons]
    simp only [Task.rest, List.count_nil] at fallen ⊢
    omega
  | @held c d path ds ok c' ev _ _ ih | @kept c d path ds ok c' ev _ _ _ ih =>
    have fallen := ih success passed
    rw [unref_apply] at fallen
    simp only [Task.rest, List.count_cons, beq_iff_eq, eq_comm (a := d)] at fallen ⊢
    omega
  | @released c d path c₁ ev₁ ds ok c' ev₂ _ _ _ _ ihRun ihRest =>
    rw [starts_append, List.mem_append, not_or] at passed
    have first := ihRun rfl passed.1
    have fallen := ihRest success passed.2
    rw [unref_apply] at first
    rw [starts_append, edgesFrom_append]
    simp only [Task.rest, List.count_cons, List.count_nil, beq_iff_eq, eq_comm (a := d)] at first fallen ⊢
    omega

/-- An interface is passed over as often as its count allows, and is entered for each other edge
to it. -/
theorem down_entries (acyclic : Acyclic G.req) (h : Down G path task c ok c' ev) (leads : Leads G path task)
    (success : ok = true) {x : α} (implicit : G.explicit x = false) (fresh : x ∉ path)
    (low : task.root = some x → c x ≤ 2) :
    (starts .preDown ev).count x + (c x - 2) =
      edgesFrom G.req (starts .preDown ev) x + task.rest.count x + (if task.root = some x then 1 else 0) +
        (c' x - 2) := by
  induction h with
  | @pending path i l c loop =>
    have other : i ≠ x := by
      rintro rfl
      exact fresh loop
    simp [Task.rest, Task.root, other]
  | nil => simp [Task.rest, Task.root]
  | template | stopped | failed | broken => cases success
  | @done path i c c' ev l off _ deps ih =>
    rw [unref_apply, starts_append, starts_succeeded _ _ _ downPhases_nodup, edgesFrom_append, List.count_append]
    simp only [Task.rest, Task.root, List.count_nil, show Phase.preDown ∈ downPhases by decide, if_true,
      edgesFrom_cons, edgesFrom_nil, List.count_singleton, Option.some.injEq, beq_iff_eq]
    by_cases here : i = x
    · subst here
      have none := down_unasked acyclic deps leads.enter List.mem_cons_self
      have waits := down_waiting acyclic deps leads.enter List.mem_cons_self
      have self : i ∉ G.req i := fun edge => acyclic i (.single edge)
      have once : i ∉ starts .preDown ev := fun again =>
        (down_implicit deps .preDown again).1 List.mem_cons_self
      have few := low rfl
      rw [List.count_eq_zero.mpr self, List.count_eq_zero.mpr once, none, waits, if_pos rfl]
      omega
    · have entered := ih leads.enter success (by simp [Ne.symm here, fresh]) (by simp [Task.root])
      rw [if_neg here, if_neg (Ne.symm here)]
      simp only [Task.rest, Task.root, reduceCtorEq, if_false] at entered
      omega
  | @held c d path ds ok c' ev needed _ ih =>
    have entered := ih leads.later success fresh (by simp [Task.root])
    rw [unref_self] at needed
    rw [unref_apply] at entered
    simp only [Task.rest, Task.root, List.count_cons, beq_iff_eq, reduceCtorEq, if_false] at entered ⊢
    by_cases here : d = x
    · subst here
      rw [if_pos rfl] at entered ⊢
      omega
    · rw [if_neg (Ne.symm here)] at entered
      rw [if_neg here]
      omega
  | @kept c d path ds ok c' ev _ explicit _ ih =>
    have entered := ih leads.later success fresh (by simp [Task.root])
    have other : d ≠ x := by
      rintro rfl
      rw [implicit] at explicit
      cases explicit
    rw [unref_apply, if_neg other.symm] at entered
    simp only [Task.rest, Task.root, List.count_cons, beq_iff_eq, reduceCtorEq, if_false, if_neg other] at entered ⊢
    omega
  | @released c d path c₁ ev₁ ds ok c' ev₂ unneeded _ run _ ihRun ihRest =>
    have few : d = x → unref c d x ≤ 1 := by
      rintro rfl
      exact unneeded
    have first := ihRun leads.first rfl fresh fun root => (few (Option.some.inj root)).trans (by omega)
    have second := ihRest leads.later success fresh (by simp [Task.root])
    have fallen := down_mono run x
    rw [starts_append, edgesFrom_append, List.count_append]
    simp only [Task.rest, Task.root, List.count_cons, List.count_nil, beq_iff_eq, reduceCtorEq, if_false,
      Option.some.injEq] at first second ⊢
    by_cases here : d = x
    · have low := few here
      rw [if_pos here] at first
      rw [unref_apply, if_pos here.symm] at first low fallen
      rw [if_pos here]
      omega
    · rw [unref_apply, if_neg (Ne.symm here), if_neg here] at first
      rw [if_neg here]
      omega

theorem down_finished (h : Down G path task c ok c' ev) (success : ok = true) {phase : Phase} {j : α}
    (member : j ∈ starts phase ev) : j ∈ downs ev := by
  induction h with
  | pending | nil => cases member
  | template | stopped | failed | broken => cases success
  | @done path i c c' ev l _ _ _ ih =>
    rw [starts_append, List.mem_append, starts_succeeded phase _ _ downPhases_nodup] at member
    rw [downs_append, downs_succeeded, Finset.mem_union, Finset.mem_singleton]
    rcases member with early | late
    · split at early <;> simp at early
      exact Or.inl early
    · exact Or.inr (ih success late)
  | held _ _ ih => exact ih success member
  | kept _ _ _ ih => exact ih success member
  | released _ _ _ _ ihRun ihRest =>
    rw [starts_append, List.mem_append] at member
    rw [downs_append, Finset.mem_union]
    exact member.imp (ihRun rfl) (ihRest success)

theorem down_dependent (h : Down G path task c ok c' ev) {j : α} (member : j ∈ starts .preDown ev) :
    task.root = some j ∨ j ∈ task.rest ∨ ∃ i ∈ starts .preDown ev, j ∈ G.req i := by
  induction h with
  | pending | template | nil => cases member
  | @failed path i l ev c _ _ phases =>
    have single := (starts_phasesFail .preDown downPhases_nodup phases).subset member
    have same : j = i := by simpa [show Phase.preDown ∈ downPhases by decide] using single
    exact Or.inl (congrArg some same.symm)
  | @stopped path i c c' ev l _ _ _ ih | @done path i c c' ev l _ _ _ ih =>
    have self : i ∈ starts .preDown (succeeded i l downPhases ++ ev) := by
      simp [starts_succeeded _ _ _ downPhases_nodup, show Phase.preDown ∈ downPhases by decide]
    rw [starts_append, List.mem_append, starts_succeeded _ _ _ downPhases_nodup] at member
    rcases member with early | late
    · have same : j = i := by simpa [show Phase.preDown ∈ downPhases by decide] using early
      exact Or.inl (congrArg some same.symm)
    · rcases ih late with root | edge | ⟨k, entered, edge⟩
      · cases root
      · exact Or.inr (Or.inr ⟨i, self, edge⟩)
      · exact Or.inr (Or.inr ⟨k, by rw [starts_append]; exact List.mem_append_right _ entered, edge⟩)
  | held _ _ ih | kept _ _ _ ih =>
    rcases ih member with root | listed | deeper
    · cases root
    · exact Or.inr (Or.inl (List.mem_cons_of_mem _ listed))
    · exact Or.inr (Or.inr deeper)
  | released _ _ _ _ ihRun ihRest =>
    rw [starts_append, List.mem_append] at member
    rw [starts_append]
    rcases member with early | late
    · rcases ihRun early with root | none | ⟨k, entered, edge⟩
      · exact Or.inr (Or.inl (Option.some.inj root ▸ List.mem_cons_self))
      · cases none
      · exact Or.inr (Or.inr ⟨k, List.mem_append_left _ entered, edge⟩)
    · rcases ihRest late with root | listed | ⟨k, entered, edge⟩
      · cases root
      · exact Or.inr (Or.inl (List.mem_cons_of_mem _ listed))
      · exact Or.inr (Or.inr ⟨k, List.mem_append_right _ entered, edge⟩)
  | broken _ _ _ ih =>
    rcases ih member with root | none | deeper
    · exact Or.inr (Or.inl (Option.some.inj root ▸ List.mem_cons_self))
    · cases none
    · exact Or.inr (Or.inr deeper)

section Exact
variable (single : Down G [] (.run root l) c true c' ev) (exact : Exact G.req (fun _ => True) conf c)
  (closed : Closed G.req conf) (inside : root ∈ conf)
include single exact closed inside

/-- From exact counts, all dependents of what goes down go down. -/
theorem exact_gone {d : α} (down : d ∈ downs ev) (other : d ≠ root) :
    c d = 1 + edges G.req (downs ev) d ∧ 0 < edges G.req (downs ev) d := by
  obtain ⟨subset, -, after⟩ := down_exact single exact closed (fun _ _ _ => trivial) inside
  obtain ⟨-, closed'⟩ := after rfl
  have none : edges G.req (conf \ downs ev) d = 0 := by
    apply edges_eq_zero.mpr
    intro j left edge
    rcases closed' j left d edge with same | stays
    · exact other same
    · exact (Finset.mem_sdiff.mp stays).2 down
  have split := edges_sdiff (g := G.req) (x := d) subset
  have counts := exact d trivial
  rw [if_pos (subset down)] at counts
  refine ⟨by omega, ?_⟩
  rcases down_dependent single (down_started single (Or.inl down)) with root | none | ⟨i, entered, edge⟩
  · exact absurd (Option.some.inj root).symm other
  · cases none
  · exact edges_pos.mpr ⟨i, down_finished single rfl entered, edge⟩

theorem exact_left {d : α} (stays : d ∉ downs ev) (up : d ∈ conf) :
    c d = c' d + edges G.req (downs ev) d ∧ 0 < c' d := by
  obtain ⟨subset, -, after⟩ := down_exact single exact closed (fun _ _ _ => trivial) inside
  obtain ⟨exact', -⟩ := after rfl
  have split := edges_sdiff (g := G.req) (x := d) subset
  have before := exact d trivial
  have left := exact' d trivial
  rw [if_pos up] at before
  rw [if_pos (Finset.mem_sdiff.mpr ⟨up, stays⟩)] at left
  omega

/-- From exact counts, what goes down with `root` is what must go down with it. -/
theorem exact_released (acyclic : Acyclic G.req) : Released G c root (downs ev) := by
  have rootDown := (down_run_true single).resolve_left List.not_mem_nil
  have grow (n : Nat) (s : Finset α) (size : (downs ev \ s).card = n) (below : s ⊆ downs ev) (top : root ∈ s)
      (released : Released G c root s) : Released G c root (downs ev) := by
    induction n generalizing s with
    | zero =>
      have whole := Finset.sdiff_eq_empty_iff_subset.mp (Finset.card_eq_zero.mp size)
      rwa [Finset.Subset.antisymm below whole] at released
    | succ n ih =>
      -- some interface outside of `s` has all of its dependents in `s`
      obtain ⟨d, outside, first⟩ : ∃ d ∈ downs ev \ s, ∀ j ∈ downs ev \ s, d ∉ G.req j := by
        by_contra all
        push Not at all
        rw [acyclic_empty acyclic all, Finset.card_empty] at size
        cases size
      obtain ⟨down, new⟩ := Finset.mem_sdiff.mp outside
      have other : d ≠ root := fun same => new (same ▸ top)
      obtain ⟨counts, needed⟩ := exact_gone single exact closed inside down other
      have none : edges G.req (downs ev \ s) d = 0 := edges_eq_zero.mpr first
      have split := edges_sdiff (g := G.req) (x := d) below
      have implicit := (down_implicit single .preDown (down_started single (Or.inl down))).2.resolve_left
        fun same => other (Option.some.inj same).symm
      apply ih (insert d s) _ (Finset.insert_subset down below) (Finset.mem_insert_of_mem top)
      · exact .release released implicit (by omega) (by omega)
      · rw [Finset.sdiff_insert, Finset.card_erase_of_mem outside, size]
        rfl
  exact grow _ {root} rfl (Finset.singleton_subset_iff.mpr rootDown) (Finset.mem_singleton_self root) .root

section Retried
variable (acyclic : Acyclic G.req) (low : ∀ x, c₁ x ≤ c x) (retried : Down G [] (.run root l) c₁ true c₂ ev₂)
include acyclic low retried

theorem retry_enters {t : α} (down : t ∈ downs ev) : t ∈ starts .preDown ev₂ := by
  have none : downs ev \ (starts .preDown ev₂).toFinset = ∅ := by
    apply acyclic_empty acyclic
    intro t member
    obtain ⟨down, absent⟩ := Finset.mem_sdiff.mp member
    rw [List.mem_toFinset] at absent
    have other : t ≠ root := by
      rintro rfl
      have again := (down_run_true retried).resolve_left List.not_mem_nil
      exact absent (down_started retried (Or.inl again))
    obtain ⟨counts, needed⟩ := exact_gone single exact closed inside down other
    have implicit := (down_implicit single .preDown (down_started single (Or.inl down))).2.resolve_left
      fun same => other (Option.some.inj same).symm
    have entries := down_entries acyclic retried leads_nil rfl implicit List.not_mem_nil
      fun same => absurd (Option.some.inj same).symm other
    rw [List.count_eq_zero.mpr absent] at entries
    have entered := edges_le_edgesFrom (g := G.req) (s := downs ev ∩ (starts .preDown ev₂).toFinset)
      (fun a member => List.mem_toFinset.mp (Finset.mem_inter.mp member).2) t
    have split := edges_sdiff (g := G.req) (x := t)
      (Finset.inter_subset_left : downs ev ∩ (starts .preDown ev₂).toFinset ⊆ downs ev)
    rw [Finset.sdiff_inter_self_left] at split
    have less := low t
    exact edges_pos.mp (by omega)
  by_contra absent
  have outside := Finset.mem_sdiff.mpr ⟨down, fun listed => absent (List.mem_toFinset.mp listed)⟩
  rw [none] at outside
  exact Finset.notMem_empty t outside

/-- A teardown enters an interface twice for which one edge more than necessary is counted down. -/
theorem retry_twice {t : α} (down : t ∈ downs ev) (other : t ≠ root)
    (more : 3 ≤ c t ∧ c₁ t < c t ∨ ∃ i ∈ downs ev, 2 ≤ (starts .preDown ev₂).count i ∧ t ∈ G.req i) :
    2 ≤ (starts .preDown ev₂).count t := by
  have enters (a) (down : a ∈ downs ev) := retry_enters single exact closed inside acyclic low retried down
  obtain ⟨counts, needed⟩ := exact_gone single exact closed inside down other
  have implicit := (down_implicit single .preDown (down_started single (Or.inl down))).2.resolve_left
    fun same => other (Option.some.inj same).symm
  have entries := down_entries acyclic retried leads_nil rfl implicit List.not_mem_nil
    fun same => absurd (Option.some.inj same).symm other
  have less := low t
  rcases more with ⟨many, lowered⟩ | ⟨i, torn, twice, edge⟩
  · have all := edges_le_edgesFrom (g := G.req) enters t
    omega
  · have all := edges_lt_edgesFrom enters torn twice edge
    omega

/-- A second teardown makes up for a failed one only if that has only lowered what goes down. -/
theorem retry_down_spent (waiting : c₁ root = c root) (same : c₂ = c') : Spent G c root c₁ := by
  have enters (a) (down : a ∈ downs ev) := retry_enters single exact closed inside acyclic low retried down
  obtain ⟨subset, -, -⟩ := down_exact single exact closed (fun _ _ _ => trivial) inside
  intro d lowered
  have less := low d
  have up : d ∈ conf := exact_counted exact closed trivial (by omega)
  have down : d ∈ downs ev := by
    by_contra stays
    obtain ⟨counts, positive⟩ := exact_left single exact closed inside stays up
    have spent := down_spent retried rfl d
    have all := edges_le_edgesFrom (g := G.req) enters d
    rw [same] at spent
    omega
  refine ⟨downs ev, exact_released single exact closed inside acyclic, down, fun many y walk => ?_⟩
  suffices both : y ∈ downs ev ∧ 2 ≤ (starts .preDown ev₂).count y from both.1
  have other : d ≠ root := by
    rintro rfl
    exact lowered waiting
  have first := retry_twice single exact closed inside acyclic low retried down other (Or.inl ⟨many, by omega⟩)
  have step {i y : α} (torn : i ∈ downs ev) (twice : 2 ≤ (starts .preDown ev₂).count i) (edge : y ∈ G.req i) :
      y ∈ downs ev ∧ 2 ≤ (starts .preDown ev₂).count y := by
    have deeper : y ≠ root := by
      rintro rfl
      obtain ⟨n, named, walk⟩ := down_reached single (down_started single (Or.inl torn))
      obtain rfl := List.mem_singleton.mp named
      exact acyclic n (.tail' walk edge)
    by_cases down : y ∈ downs ev
    · exact ⟨down, retry_twice single exact closed inside acyclic low retried down deeper
        (Or.inr ⟨i, torn, twice, edge⟩)⟩
    · obtain ⟨counts, positive⟩ := exact_left single exact closed inside down (closed i (subset torn) y edge)
      have spent := down_spent retried rfl y
      have all := edges_lt_edgesFrom enters torn twice edge
      have less := low y
      rw [same] at spent
      omega
  induction walk with
  | single edge => exact step down first edge
  | tail _ edge ih => exact step ih.1 ih.2 edge

end Retried

end Exact

end Ifupdown
