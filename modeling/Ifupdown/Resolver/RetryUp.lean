import Ifupdown.Resolver.BringUpOrder

/-! A bring-up that fails, tried again. -/
namespace Ifupdown

open Successors

variable {α : Type} [DecidableEq α] {G : DepGraph α} {path : List α} {task : Task α}
  {c c' c₁ c₂ : α → Nat} {ok : Bool} {ev : List (Event α)} {root f : α}

/-- A successful bring-up configures just the interfaces that uncounted dependencies lead to. -/
theorem up_reaches (h : Up G [] (.run root l) c true c' ev) {j : α} :
    j ∈ ups ev ↔ Relation.ReflTransGen (FreeEdge G c) root j := by
  constructor
  · intro up
    apply up_within h (b := c) (s := {j | Relation.ReflTransGen (FreeEdge G c) root j})
      _ (fun _ => Nat.le_refl _) _ (by simp [Task.rest]) .create (up_started h (Or.inl up))
    · intro i walk d edge zero
      exact walk.tail ⟨edge, zero⟩
    · rintro i ⟨⟩
      exact .refl
  · intro walk
    induction walk with
    | refl => exact (up_run_true h).resolve_left List.not_mem_nil
    | tail _ edge ih =>
      rcases up_counted h rfl (up_dependency_counted h ih edge.1) with before | up | waits
      · exact absurd edge.2 before.ne'
      · exact up
      · cases waits

theorem deps_broken (h : Up G path (.deps ds) c false c' ev) :
    ∃ pre d post c₁ ev₁ ev₂, ds = pre ++ d :: post ∧ ev = ev₁ ++ ev₂ ∧ c₁ d = 0 ∧
      Up G path (.deps pre) c true c₁ ev₁ ∧ Up G path (.run d d) (ref c₁ d) false c' ev₂ := by
  generalize same : Task.deps ds = task at h
  generalize stopped : false = ok at h
  induction h generalizing ds with
  | pending | template | stopped | failed | done => cases same
  | nil => cases stopped
  | held counted _ ih =>
    cases same
    obtain ⟨pre, x, post, c₁, ev₁, ev₂, rfl, rfl, zero, first, last⟩ := ih rfl stopped
    exact ⟨_ :: pre, x, post, c₁, ev₁, ev₂, rfl, rfl, zero, .held counted first, last⟩
  | @raised c path d c₁ ev₁ ds ok c' ev₂ uncounted run _ _ ih =>
    cases same
    obtain ⟨pre, x, post, c₂, ev₃, ev₄, rfl, rfl, zero, first, last⟩ := ih rfl stopped
    exact ⟨d :: pre, x, post, c₂, ev₁ ++ ev₃, ev₄, rfl, (List.append_assoc _ _ _).symm, zero,
      .raised uncounted run first, last⟩
  | @broken c path d c' ev ds uncounted run _ =>
    cases same
    exact ⟨[], d, ds, c, [], ev, rfl, rfl, uncounted, .nil, run⟩

theorem up_waiting (acyclic : Acyclic G.req) (h : Up G path task c ok c' ev) (leads : Leads G path task)
    {p : α} (waits : p ∈ path) : c' p = c p := by
  have apart {p n} (walk : Relation.TransGen (Edge G.req) p n) : p ≠ n := by
    rintro rfl
    exact acyclic p walk
  induction h with
  | pending | template | nil => rfl
  | stopped _ _ _ ih | failed _ _ _ _ ih => exact ih leads.enter (List.mem_cons_of_mem _ waits)
  | @done path i c c' ev l _ _ _ ih =>
    rw [ref_apply, if_neg (apart (leads p waits i (List.mem_singleton.mpr rfl)))]
    exact ih leads.enter (List.mem_cons_of_mem _ waits)
  | @held c path ds d _ _ _ _ _ ih =>
    rw [ih leads.later waits, ref_apply, if_neg (apart (leads p waits d List.mem_cons_self))]
    rfl
  | @raised c path d c₁ ev₁ ds ok c' ev₂ _ _ _ ihRun ihRest =>
    rw [ihRest leads.later waits, ihRun leads.first waits, ref_apply,
      if_neg (apart (leads p waits d List.mem_cons_self))]
    rfl
  | @broken c path d c' ev ds _ _ ih =>
    rw [ih leads.first waits, ref_apply, if_neg (apart (leads p waits d List.mem_cons_self))]
    rfl

/-- An interface whose phase fails has been counted once, for the dependent that waits for it. -/
theorem up_failing (acyclic : Acyclic G.req) (h : Up G path task c ok c' ev) (leads : Leads G path task)
    (fails : f ∈ failures ev) : task.root = some f ∧ c' f = c f ∨ c' f = 1 := by
  induction h with
  | pending | template | nil => cases fails
  | stopped _ _ _ ih =>
    rcases ih leads.enter fails with ⟨root, -⟩ | once
    · cases root
    · exact Or.inr once
  | @failed path i c c' ev l last _ _ deps phases ih =>
    rw [failures_append, up_success_failures deps rfl, failures_phasesFail phases] at fails
    obtain rfl := List.mem_singleton.mp fails
    exact Or.inl ⟨rfl, up_waiting acyclic deps leads.enter List.mem_cons_self⟩
  | done _ _ deps ih =>
    rw [failures_append, up_success_failures deps rfl, failures_succeeded] at fails
    cases fails
  | held _ _ ih =>
    rcases ih leads.later fails with ⟨root, -⟩ | once
    · cases root
    · exact Or.inr once
  | raised _ run _ _ ih =>
    rw [failures_append, up_success_failures run rfl] at fails
    rcases ih leads.later fails with ⟨root, -⟩ | once
    · cases root
    · exact Or.inr once
  | @broken c path d c' ev ds uncounted run ih =>
    rcases ih leads.first fails with ⟨root, same⟩ | once
    · obtain rfl := Option.some.inj root
      rw [same, ref_self, uncounted]
      exact Or.inr rfl
    · exact Or.inr once

theorem up_reaches_less (low : ∀ x, c x ≤ c₁ x) (single : Up G [] (.run root l) c true c' ev)
    (retried : Up G [] (.run root l') c₁ true c₂ ev₂) : ups ev₂ ⊆ ups ev := by
  intro j up
  apply (up_reaches single).mpr
  refine Relation.ReflTransGen.mono ?_ _ _ ((up_reaches retried).mp up)
  rintro i d ⟨edge, zero⟩
  have least := low d
  exact ⟨edge, by omega⟩

/-- A failed bring-up of `root` that has configured and counted the interfaces of `up`, and has
left some counts higher by `extra`. -/
structure Attempt (G : DepGraph α) (c : α → Nat) (root : α) (up : Finset α) (extra c₁ : α → Nat) : Prop where
  counts : ∀ x, c₁ x = c x + (if x ∈ up then 1 else 0) + edges G.req up x + extra x
  counted : ∀ x, 0 < c₁ x → 0 < c x ∨ x ∈ up
  reached : ∀ x ∈ up, Relation.ReflTransGen (FreeEdge G c) root x
  uncounted : c₁ root = 0

/-- A second bring-up of `root` goes through the rest. -/
theorem Attempt.ups_union {up : Finset α} {extra : α → Nat} (attempt : Attempt G c root up extra c₁)
    (retried : Up G [] (.run root l) c₁ true c₂ ev₂) (single : Up G [] (.run root l) c true c' ev) :
    Disjoint up (ups ev₂) ∧ ups ev = up ∪ ups ev₂ := by
  constructor
  · refine Finset.disjoint_left.mpr fun j early late => ?_
    have counts := attempt.counts j
    rw [if_pos early] at counts
    rcases (up_ups_fresh retried late).2 with same | zero
    · have uncounted := attempt.uncounted
      obtain rfl : root = j := Option.some.inj same
      omega
    · omega
  · apply Finset.Subset.antisymm
    · intro j single'
      have walk := (up_reaches single).mp single'
      induction walk with
      | refl => exact Finset.mem_union_right _ ((up_run_true retried).resolve_left List.not_mem_nil)
      | @tail i d walk edge ih =>
        have counted : 0 < c₁ d → d ∈ up := fun positive =>
          (attempt.counted d positive).resolve_left (by have := edge.2; omega)
        rcases Finset.mem_union.mp (ih ((up_reaches single).mpr walk)) with early | late
        · have needed := edges_pos.mpr ⟨i, early, edge.1⟩
          have counts := attempt.counts d
          exact Finset.mem_union_left _ (counted (by omega))
        · by_cases zero : c₁ d = 0
          · apply Finset.mem_union_right
            exact (up_reaches retried).mpr (((up_reaches retried).mp late).tail ⟨edge.1, zero⟩)
          · exact Finset.mem_union_left _ (counted (Nat.pos_of_ne_zero zero))
    · apply Finset.union_subset
      · intro j early
        exact (up_reaches single).mpr (attempt.reached j early)
      · refine up_reaches_less (fun x => ?_) single retried
        have counts := attempt.counts x
        omega

theorem Attempt.retried_counts {up : Finset α} {extra : α → Nat} (attempt : Attempt G c root up extra c₁)
    (retried : Up G [] (.run root l) c₁ true c₂ ev₂) (single : Up G [] (.run root l) c true c' ev) (x : α) :
    c₂ x = c' x + extra x := by
  obtain ⟨apart, union⟩ := attempt.ups_union retried single
  have first := attempt.counts x
  have second := up_counts retried rfl x
  have whole := up_counts single rfl x
  rw [union, edges_union apart] at whole
  have split : (if x ∈ up ∪ ups ev₂ then 1 else 0) = (if x ∈ up then 1 else 0) + if x ∈ ups ev₂ then 1 else 0 := by
    by_cases early : x ∈ up
    · have late : x ∉ ups ev₂ := Finset.disjoint_left.mp apart early
      simp [early, late]
    · simp [early]
  simp only [Task.rest, List.count_nil] at second whole
  omega

omit [DecidableEq α] in
theorem leads_root : Leads G [root] (.deps (G.req root)) := Leads.enter (l := root) leads_nil

theorem up_failed_waiting (acyclic : Acyclic G.req) (failed : Up G [] (.run root l) c false c₁ ev) :
    c₁ root = c root := by
  cases failed with
  | template => rfl
  | stopped _ _ deps | failed _ _ deps _ => exact up_waiting acyclic deps leads_root List.mem_cons_self

theorem deps_reached (h : Up G path (.deps ds) c ok c' ev) (low : ∀ x, c₁ x ≤ c x)
    (start : ∀ d ∈ ds, c₁ d = 0 → Relation.ReflTransGen (FreeEdge G c₁) root d) {j : α} (up : j ∈ ups ev) :
    Relation.ReflTransGen (FreeEdge G c₁) root j := by
  apply up_within h (b := c₁) (s := {j | Relation.ReflTransGen (FreeEdge G c₁) root j}) _ low
    (by simp [Task.root]) start .create (up_started h (Or.inl up))
  intro i walk d edge zero
  exact walk.tail ⟨edge, zero⟩

theorem attempt_own (acyclic : Acyclic G.req) (uncounted : c root = 0)
    (deps : Up G [root] (.deps (G.req root)) c true c₁ ev) :
    Attempt G c root (ups ev) (fun x => (G.req root).count x) c₁ where
  counts := up_counts deps rfl
  uncounted := (up_waiting acyclic deps leads_root List.mem_cons_self).trans uncounted
  counted x positive := by
    rcases up_counted deps rfl positive with before | up | waits
    · exact Or.inl before
    · exact Or.inr up
    · have same := up_waiting acyclic deps leads_root List.mem_cons_self
      obtain rfl := List.mem_singleton.mp waits
      omega
  reached j up := deps_reached deps (fun _ => Nat.le_refl _) (fun d edge zero => .single ⟨edge, zero⟩) up

theorem attempt_dependency {pre post : List α} {ev₁ ev₂ : List (Event α)} {cA : α → Nat}
    (waiting : c₁ root = 0)
    (split : G.req root = pre ++ d :: post) (first : Up G [root] (.deps pre) c true cA ev₁) (zero : cA d = 0)
    (deps : Up G [d, root] (.deps (G.req d)) (ref cA d) true c₁ ev₂) :
    Attempt G c root (insert d (ups ev₁ ∪ ups ev₂)) (fun x => pre.count x) c₁ := by
  have low := up_mono first
  have fresh : d ∉ ups ev₁ := fun up => by
    have entered := (up_ups_entered first up).2.2
    omega
  have outside : d ∉ ups ev₂ := fun up => (up_ups_entered deps up).1 List.mem_cons_self
  have apart : Disjoint (ups ev₁) (ups ev₂) := by
    refine Finset.disjoint_left.mpr fun j early late => ?_
    have before := (up_ups_entered first early).2.2
    have after := (up_ups_entered deps late).2.1
    rw [ref_apply] at after
    omega
  have new : d ∉ ups ev₁ ∪ ups ev₂ := by simp [fresh, outside]
  have step : FreeEdge G c root d := by
    have least := low d
    exact ⟨by simp [split], by omega⟩
  constructor
  · intro x
    have one := up_counts first rfl x
    have two := up_counts deps rfl x
    rw [ref_apply] at two
    rw [edges_insert new, edges_union apart]
    simp only [Task.rest, Finset.mem_insert] at one two ⊢
    have indicator : (if x = d ∨ x ∈ ups ev₁ ∪ ups ev₂ then 1 else 0) =
        (if x = d then 1 else 0) + (if x ∈ ups ev₁ then 1 else 0) + if x ∈ ups ev₂ then 1 else 0 := by
      by_cases here : x = d
      · subst here
        simp [fresh, outside]
      · by_cases early : x ∈ ups ev₁
        · simp [here, early, Finset.disjoint_left.mp apart early]
        · simp [here, early]
    omega
  · intro x positive
    rw [Finset.mem_insert, Finset.mem_union]
    rcases up_counted deps rfl positive with between | up | waits
    · by_cases same : x = d
      · exact Or.inr (Or.inl same)
      · rw [ref_apply, if_neg same] at between
        rcases up_counted first rfl between with before | up | waits
        · exact Or.inl before
        · exact Or.inr (Or.inr (Or.inl up))
        · obtain rfl := List.mem_singleton.mp waits
          omega
    · exact Or.inr (Or.inr (Or.inr up))
    · rcases List.mem_cons.mp waits with same | waits
      · exact Or.inr (Or.inl same)
      · obtain rfl := List.mem_singleton.mp waits
        omega
  · intro x member
    rcases Finset.mem_insert.mp member with rfl | below
    · exact .single step
    rcases Finset.mem_union.mp below with early | late
    · exact deps_reached first (fun _ => Nat.le_refl _) (fun d listed zero => .single ⟨by simp [split, listed], zero⟩)
        early
    · refine deps_reached deps (fun x => (low x).trans ?_) (fun d' edge zero => ?_) late
      · rw [ref_apply]
        omega
      · exact .tail (.single step) ⟨edge, zero⟩
  · exact waiting

omit [DecidableEq α] in
theorem head_append {pre post : List α} (absent : f ∉ pre) : (pre ++ f :: post).head? = some f ↔ pre = [] := by
  cases pre with
  | nil => simp
  | cons x pre =>
    have other : x ≠ f := fun same => absent (same ▸ List.mem_cons_self)
    simp [other]

theorem counts_same {listed : List α} (counts : ∀ x, c₂ x = c' x + listed.count x) : c₂ = c' ↔ listed = [] := by
  constructor
  · intro same
    refine List.eq_nil_iff_forall_not_mem.mpr fun x member => ?_
    have once := counts x
    have positive := List.count_pos_iff.mpr member
    rw [same] at once
    omega
  · intro none
    funext x
    rw [counts x, none]
    rfl

/-- An interface that fails further down has been counted for a dependent that is counted, too:
neither of them comes up at the second attempt. -/
theorem retry_deeper (other : f ≠ root)
    (failed : Up G [root] (.deps (G.req root)) c false c₁ ev₁) (waiting : c₁ root = 0)
    (once : c₁ f = 1) (edge : f ∈ G.req p) (unready : c f = 0) (fresh : c p = 0) (counted : 0 < c₁ p)
    (retried : Up G [] (.run root l) c₁ true c₂ ev₂) (single : Up G [] (.run root l) c true c' ev) :
    c₂ f < c' f := by
  have up : p ∈ ups ev := by
    apply (up_reaches single).mpr
    have spread := up_spreads failed (b := c) (s := {j | Relation.ReflTransGen (FreeEdge G c) root j})
      (fun i walk d edge zero => walk.tail ⟨edge, zero⟩) (fun _ => Nat.le_refl _) (by simp [Task.root])
      (fun d edge zero => .single ⟨edge, zero⟩) (fun _ positive => Or.inl positive) counted
    exact spread.resolve_left (by omega)
  have reached : f ∈ ups ev := (up_reaches single).mpr (((up_reaches single).mp up).tail ⟨edge, unready⟩)
  have down : p ∉ ups ev₂ := by
    intro again
    rcases (up_ups_fresh retried again).2 with same | zero
    · obtain rfl : root = p := Option.some.inj same
      omega
    · omega
  have stays : f ∉ ups ev₂ := by
    intro again
    rcases (up_ups_fresh retried again).2 with same | zero
    · exact other (Option.some.inj same).symm
    · omega
  have more := edges_mono (g := G.req) (x := f)
    (Finset.insert_subset up (up_reaches_less (up_mono failed) single retried))
  rw [edges_insert down] at more
  have listed := List.count_pos_iff.mpr edge
  have second := up_counts retried rfl f
  have all := up_counts single rfl f
  rw [if_neg stays] at second
  rw [if_pos reached] at all
  simp only [Task.rest, List.count_nil] at second all
  omega

/-- A second bring-up makes up for the first one just if that has only counted what failed: the
interface itself, or the first that it requires. -/
theorem retry_up (acyclic : Acyclic G.req) (uncounted : c root = 0)
    (failed : Up G [] (.run root l) c false c₁ ev₁) (fails : f ∈ failures ev₁)
    (retried : Up G [] (.run root l) c₁ true c₂ ev₂) (single : Up G [] (.run root l) c true c' ev) :
    c₂ = c' ↔ f = root ∧ G.req root = [] ∨ (G.req root).head? = some f := by
  cases failed with
  | template => cases fails
  | failed _ _ deps phases =>
    rw [failures_append, up_success_failures deps rfl, failures_phasesFail phases] at fails
    obtain rfl := List.mem_singleton.mp fails
    have counts := (attempt_own acyclic uncounted deps).retried_counts retried single
    rw [counts_same counts]
    constructor
    · exact fun none => Or.inl ⟨rfl, none⟩
    · rintro (⟨-, none⟩ | head)
      · exact none
      · exact absurd (.single (List.mem_of_head? head)) (acyclic f)
  | stopped _ _ whole =>
    have waiting := (up_waiting acyclic whole leads_root List.mem_cons_self).trans uncounted
    obtain ⟨pre, d, post, cA, evA, evB, split, rfl, zero, first, run⟩ := deps_broken whole
    rw [failures_append, up_success_failures first rfl, List.nil_append] at fails
    have other : f ≠ root := by
      rintro rfl
      exact up_failures_fresh run fails List.mem_cons_self
    have low := up_mono first
    have unready : cA f = 0 := by
      rcases ((up_starts_once run .create).2 f (up_started run (Or.inr fails))).2 with same | fresh
      · exact Option.some.inj same ▸ zero
      · rw [ref_apply] at fresh
        omega
    have absent : f ∉ pre := by
      intro listed
      have counts := up_counts first rfl f
      have positive := List.count_pos_iff.mpr listed
      rw [Task.rest] at counts
      omega
    rw [split]
    by_cases here : f = d
    · subst here
      rw [head_append absent]
      have counts : ∀ x, c₂ x = c' x + pre.count x := by
        cases run with
        | template => cases fails
        | stopped _ _ deps => exact absurd List.mem_cons_self (up_failures_fresh deps fails)
        | failed _ _ deps _ => exact (attempt_dependency waiting split first zero deps).retried_counts retried single
      rw [counts_same counts]
      constructor
      · exact Or.inr
      · rintro (⟨root, -⟩ | none)
        · exact absurd root other
        · exact none
    · apply iff_of_false
      · intro same
        have leads : Leads G [root] (.run d d) := by
          intro p waits n named
          rw [List.mem_singleton.mp waits, List.mem_singleton.mp named]
          exact .single (show d ∈ G.req root by simp [split])
        have once := (up_failing acyclic run leads fails).resolve_left
          fun root => here (Option.some.inj root.1).symm
        have before := low f
        obtain ⟨p, edge, fresh, counted⟩ : ∃ p, f ∈ G.req p ∧ c p = 0 ∧ 0 < c₁ p := by
          rcases up_dependent run (up_started run (Or.inr fails)) with same | none | ⟨p, edge, same | entered⟩
          · exact absurd (Option.some.inj same).symm here
          · cases none
          · obtain rfl : d = p := Option.some.inj same
            have raised := up_mono run d
            have before := low d
            rw [ref_self] at raised
            exact ⟨d, edge, by omega, by omega⟩
          · have before := low p
            rw [ref_apply] at entered
            exact ⟨p, edge, by omega, entered.2⟩
        have less := retry_deeper other whole waiting once edge (by omega) fresh counted retried single
        rw [same] at less
        exact Nat.lt_irrefl _ less
      · rintro (⟨root, -⟩ | head)
        · exact other root
        · cases pre with
          | nil => exact here (Option.some.inj head).symm
          | cons x pre => exact absent (Option.some.inj head ▸ List.mem_cons_self)

end Ifupdown
