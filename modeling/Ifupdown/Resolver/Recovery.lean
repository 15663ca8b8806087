import Ifupdown.Resolver.Unwinding

/-! When a teardown takes back what a bring-up that has failed has counted, and no more. -/
namespace Ifupdown

open Successors

variable {α : Type} [DecidableEq α] {G P : DepGraph α} {c c' c₁ : α → Nat} {ev : List (Event α)} {d i k l root u w x : α}
  {stack : List (α × List α)} {entered up t : Finset α}

/-- What a bring-up has entered and a teardown may enter again. -/
def Touched (G P : DepGraph α) (c : α → Nat) (root : α) : α → Prop :=
  Relation.ReflTransGen (fun i d => FreeEdge P c i d ∧ G.explicit d = false) root

/-- The edges that `G` has more than `P` lead to nothing counted, and those that `P` has are all counted down
again on the ways to something counted. -/
structure Mendable (G P : DepGraph α) (c : α → Nat) (root : α) (stack : List (α × List α)) : Prop where
  missed : ∀ u, Touched G P c root u → ∀ d, (P.req u).count d < (G.req u).count d →
    ∀ k, Relation.ReflTransGen (Falling G c root) d k → c k = 0
  kept : ∀ u, Touched G P c root u → ∀ d ∈ P.req u, G.explicit d = true →
    ∀ k, Relation.TransGen (Through P c root) d k → c k = 0
  held : ∀ u, Touched G P c root u → ∀ k ∈ P.req u, 0 < c k → G.explicit k = true ∨ 1 < c k
  circular : ∀ u, Touched G P c root u → Relation.TransGen (Through P c root) u u →
    (∀ k, Relation.TransGen (Through P c root) u k → c k = 0) ∨ u ∈ stack.map Prod.fst ∧ (counted stack).count u ≤ 2

/-- An edge from `s` to what has been brought up, or to what waits next. -/
def Onward (P : DepGraph α) (c : α → Nat) (root : α) (stack : List (α × List α)) (up s : Finset α) (a b : α) : Prop :=
  a ∈ s ∧ Through P c root a b ∧ (b ∈ up ∨ (stack.map Prod.fst).idxOf a + 1 = (stack.map Prod.fst).idxOf b)

def Needs (P : DepGraph α) (c : α → Nat) (root u : α) : Prop := ∃ k, 0 < c k ∧ Relation.TransGen (Through P c root) u k

omit [DecidableEq α] in
theorem Needs.other (needs : Needs P c root u) : u ≠ root ∧ c u = 0 := by
  obtain ⟨k, -, walk⟩ := needs
  obtain ⟨_, edge, -⟩ := Relation.TransGen.head'_iff.mp walk
  exact ⟨edge.1, edge.2.1⟩

section
variable (progress : Halfway P c root stack entered up c₁) (mendable : Mendable G P c root stack)
  (rootless : c root = 0) (sub : ∀ u, (P.req u).Sublist (G.req u))
include progress mendable rootless

theorem needs_touched (member : u ∈ entered) (needs : u = root ∨ Needs P c root u) :
    Touched G P c root u ∧ (u = root ∨ G.explicit u = false) := by
  have walk := (progress.reached u).mp member
  induction walk with
  | refl => exact ⟨.refl, Or.inl rfl⟩
  | @tail b u before edge ih =>
    rcases needs with rfl | needs
    · exact ⟨.refl, Or.inl rfl⟩
    · obtain ⟨k, counted, further⟩ := needs
      have inside : b ∈ entered := (progress.reached b).mpr before
      have known : b = root ∨ Needs P c root b := by
        by_cases same : b = root
        · exact Or.inl same
        · exact Or.inr ⟨k, counted, .head ⟨same, progress.zero rootless inside, edge.1⟩ further⟩
      have touched := (ih inside known).1
      have implicit : G.explicit u = false := by
        by_contra explicit
        have zero := mendable.kept b touched u edge.1 (Bool.eq_true_of_not_eq_false explicit) k further
        omega
      exact ⟨touched.tail ⟨edge, implicit⟩, Or.inr implicit⟩

theorem needless_harmless (touched : Touched G P c root u) (member : u ∈ entered) (other : u ≠ root)
    (implicit : G.explicit u = false) (needless : ¬ Needs P c root u) : Harmless G c root u := by
  refine ⟨other, progress.zero rootless member, implicit, fun k walk => ?_⟩
  induction walk using Relation.ReflTransGen.head_induction_on with
  | refl => exact progress.zero rootless member
  | @head i d edge walk ih =>
    by_cases missed : (P.req i).count d < (G.req i).count d
    · exact mendable.missed i touched d missed k walk
    · have listed : d ∈ P.req i := List.count_pos_iff.mp (by
        have asked := List.count_pos_iff.mpr edge.1.2.2
        omega)
      have through : Through P c root i d := ⟨edge.1.1, edge.1.2.1, listed⟩
      have zero : c d = 0 := by
        by_contra counted
        exact needless ⟨d, Nat.pos_of_ne_zero counted, .single through⟩
      rcases Relation.ReflTransGen.cases_head walk with rfl | ⟨_, next, -⟩
      · exact zero
      · refine ih (touched.tail ⟨⟨listed, zero⟩, next.2⟩) (progress.next member listed zero)
          next.1.1 next.2 ?_
        rintro ⟨k, counted, further⟩
        exact needless ⟨k, counted, .head through further⟩

/-- What needs a counted interface and has been brought up is on no cycle. -/
theorem needed_once (member : u ∈ up) (needs : Needs P c root u) : ¬ Relation.TransGen (Through P c root) u u := by
  intro cycle
  obtain ⟨k, counted, walk⟩ := needs
  have touched := (needs_touched progress mendable rootless (progress.within member) (Or.inr ⟨k, counted, walk⟩)).1
  rcases mendable.circular u touched cycle with none | ⟨waits, -⟩
  · have zero := none k walk
    omega
  · exact progress.apart u waits member

theorem needed_unasked (member : w ∈ up) (waits : x ∈ stack.map Prod.fst) (other : x ≠ root) (needs : Needs P c root x) : x ∉ P.req w := by
  intro edge
  have inside := progress.within member
  have apart : w ≠ root := by
    rintro rfl
    obtain ⟨later, names⟩ := progress.starts
    exact progress.apart w (by rw [names]; exact List.mem_cons_self) member
  have through : Through P c root w x := ⟨apart, progress.zero rootless inside, edge⟩
  obtain ⟨k, counted, walk⟩ := needs
  exact needed_once progress mendable rootless member ⟨k, counted, .head through walk⟩
    (.head through (progress.under x waits other w member edge))

/-- Walking back over the edges, for what waits over the one to the interface above it, comes to an end. -/
theorem needed_acyclic {s : Finset α} (inside : ∀ u ∈ s, u ∈ entered ∧ u ≠ root ∧ Needs P c root u)
    (back : ∀ u ∈ s, ∃ w ∈ s, u ∈ P.req w ∧ (u ∉ up → (stack.map Prod.fst).idxOf w + 1 = (stack.map Prod.fst).idxOf u)) : s = ∅ := by
  have climbs {a b : α} (walk : Relation.TransGen (Onward P c root stack up s) a b) :
      (∃ v ∈ up, Relation.TransGen (Onward P c root stack up s) a v ∧ Relation.ReflTransGen (Onward P c root stack up s) v b) ∨
        (stack.map Prod.fst).idxOf a < (stack.map Prod.fst).idxOf b := by
    induction walk with
    | @single b edge =>
      refine edge.2.2.imp (fun brought => ⟨b, brought, .single edge, .refl⟩) fun higher => ?_
      omega
    | @tail b e walk edge ih =>
      rcases ih with ⟨v, brought, front, rest⟩ | low
      · exact Or.inl ⟨v, brought, front, rest.tail edge⟩
      · refine edge.2.2.imp (fun brought => ⟨e, brought, walk.tail edge, .refl⟩) fun higher => ?_
        omega
  have acyclic (u : α) : ¬ Relation.TransGen (Onward P c root stack up s) u u := by
    intro walk
    rcases climbs walk with ⟨v, brought, front, rest⟩ | low
    · have cycle := Relation.TransGen.trans_right rest front
      obtain ⟨_, first, -⟩ := Relation.TransGen.head'_iff.mp cycle
      exact needed_once progress mendable rootless brought (inside v first.1).2.2
        (Relation.TransGen.mono (fun _ _ edge => edge.2.1) _ _ cycle)
    · exact Nat.lt_irrefl _ low
  apply walk_back_empty acyclic
  intro u member
  obtain ⟨w, before, edge, kind⟩ := back u member
  obtain ⟨known, other, -⟩ := inside w before
  refine ⟨w, before, before, ⟨other, progress.zero rootless known, edge⟩, ?_⟩
  by_cases brought : u ∈ up
  · exact Or.inl brought
  · exact Or.inr (kind brought)

include sub

theorem needs_falls (member : u ∈ entered) (counted : 0 < c k) (walk : Relation.TransGen (Through P c root) u k) :
    Relation.ReflTransGen (Falling G c root) u k := by
  have listed {i d : α} (edge : d ∈ P.req i) : d ∈ G.req i :=
    List.count_pos_iff.mp ((List.count_pos_iff.mpr edge).trans_le ((sub i).count_le d))
  have falls {i d : α} (inside : i ∈ entered) (edge : Through P c root i d) (needs : Needs P c root i) : Falling G c root i d :=
    ⟨⟨edge.1, edge.2.1, listed edge.2.2⟩, (needs_touched progress mendable rootless inside (Or.inr needs)).2.resolve_left edge.1⟩
  induction walk using Relation.TransGen.head_induction_on with
  | single edge => exact .single (falls member edge ⟨k, counted, .single edge⟩)
  | @head i d edge walk ih =>
    have next : d ∈ entered := by
      obtain ⟨-, zero⟩ := Needs.other ⟨k, counted, walk⟩
      exact progress.next member edge.2.2 zero
    exact .head (falls member edge ⟨k, counted, .head edge walk⟩) (ih next)

theorem needed_same (touched : Touched G P c root w) (matters : 0 < c x ∨ x ∈ entered ∧ Needs P c root x) :
    (P.req w).count x = (G.req w).count x := by
  by_contra unequal
  have low := (sub w).count_le x
  have missed := mendable.missed w touched x (by omega)
  rcases matters with counted | ⟨inside, k, counted, walk⟩
  · have zero := missed x .refl
    omega
  · have zero := missed k (needs_falls progress mendable rootless sub inside counted walk)
    omega

/-- Only the root and what needs a counted interface has edges to what matters, and they are the edges that have
been counted. -/
theorem needed_edges (known : ∀ w, w ∈ t ↔ w = root ∨ w ∈ entered ∧ Needs P c root w) (matters : 0 < c x ∨ x ∈ entered ∧ Needs P c root x) :
    edges P.req entered x = edges G.req t x := by
  have rooted := progress.rooted
  have subset : t ⊆ entered := by
    intro w member
    rcases (known w).mp member with rfl | ⟨inside, -⟩
    · exact rooted
    · exact inside
  have needs {w : α} (inside : w ∈ entered) (other : w ≠ root) (edge : x ∈ P.req w) : Needs P c root w := by
    have through : Through P c root w x := ⟨other, progress.zero rootless inside, edge⟩
    rcases matters with counted | ⟨-, k, counted, walk⟩
    · exact ⟨x, counted, .single through⟩
    · exact ⟨k, counted, .head through walk⟩
  have none : edges P.req (entered \ t) x = 0 := by
    apply edges_eq_zero.mpr
    intro w member edge
    obtain ⟨inside, outside⟩ := Finset.mem_sdiff.mp member
    apply outside
    rw [known]
    by_cases same : w = root
    · exact Or.inl same
    · exact Or.inr ⟨inside, needs inside same edge⟩
  have split := edges_sdiff (g := P.req) (x := x) subset
  have same : edges P.req t x = edges G.req t x := by
    refine Finset.sum_congr rfl fun w member => ?_
    have needs := ((known w).mp member).imp id And.right
    exact needed_same progress mendable rootless sub (needs_touched progress mendable rootless (subset member) needs).1 matters
  omega

theorem progress_undoing : ∃ t own, Undoing G c root t own (stack.map Prod.fst).idxOf ∧
    (∀ k, 0 < c k → c₁ k = c k + edges G.req t k) ∧ ∀ u ∈ t, u ≠ root → c₁ u = own u + edges G.req t u := by
  classical
  have rooted := progress.rooted
  obtain ⟨later, names⟩ := progress.starts
  have first : root ∈ stack.map Prod.fst := by
    rw [names]
    exact List.mem_cons_self
  obtain ⟨t, known⟩ : ∃ t : Finset α, ∀ w, w ∈ t ↔ w = root ∨ w ∈ entered ∧ Needs P c root w := by
    refine ⟨entered.filter fun w => w = root ∨ Needs P c root w, fun w => ?_⟩
    rw [Finset.mem_filter]
    constructor
    · rintro ⟨inside, rfl | needs⟩
      · exact Or.inl rfl
      · exact Or.inr ⟨inside, needs⟩
    · rintro (rfl | ⟨inside, needs⟩)
      · exact ⟨rooted, Or.inl rfl⟩
      · exact ⟨inside, Or.inr needs⟩
  have within {u : α} (member : u ∈ t) : u ∈ entered := ((known u).mp member).elim (fun same => same ▸ rooted) And.left
  have needs {u : α} (member : u ∈ t) (other : u ≠ root) : Needs P c root u := (((known u).mp member).resolve_left other).2
  have touched {u : α} (member : u ∈ t) : Touched G P c root u ∧ (u = root ∨ G.explicit u = false) :=
    needs_touched progress mendable rootless (within member) (((known u).mp member).imp id And.right)
  have edges {u : α} (member : u ∈ t) (other : u ≠ root) : Successors.edges P.req entered u = Successors.edges G.req t u :=
    needed_edges progress mendable rootless sub known (Or.inr ⟨within member, needs member other⟩)
  have same {u w : α} (member : u ∈ t) (other : u ≠ root) (before : w ∈ t) : (P.req w).count u = (G.req w).count u :=
    needed_same progress mendable rootless sub (touched before).1 (Or.inr ⟨within member, needs member other⟩)
  have waits {u : α} (member : u ∈ t) (idle : (if u ∈ up then 1 else 0) = 0) : u ∈ stack.map Prod.fst :=
    ((progress.parts u).mp (within member)).resolve_left fun up => by
      rw [if_pos up] at idle
      cases idle
  have idle {u : α} (waits : u ∈ stack.map Prod.fst) : (if u ∈ up then 1 else 0) = 0 := if_neg (progress.apart u waits)
  have listed {u d : α} (enough : ¬ (P.req u).count d < (G.req u).count d) (edge : d ∈ G.req u) : d ∈ P.req u := by
    have positive := List.count_pos_iff.mpr edge
    exact List.count_pos_iff.mp (by omega)
  refine ⟨t, fun u => if u ∈ up then 1 else 0, ?_, fun k counted => ?_, fun u member other => ?_⟩
  · constructor
    case rooted => exact ⟨(known root).mpr (Or.inl rfl), idle first, by rw [names, List.idxOf_cons_self]⟩
    case uncounted => exact fun u member => progress.zero rootless (within member)
    case implicit => exact fun u member other => (touched member).2.resolve_left other
    case held =>
      intro u member d edge counted
      by_cases missed : (P.req u).count d < (G.req u).count d
      · have zero := mendable.missed u (touched member).1 d missed d .refl
        omega
      · exact mendable.held u (touched member).1 d (listed missed edge) counted
    case deps =>
      intro u member d edge
      by_cases counted : 0 < c d
      · exact Or.inl counted
      refine Or.inr ?_
      by_cases same : d = root
      · exact Or.inl ((known d).mpr (Or.inl same))
      cases explicit : G.explicit d with
      | true => exact Or.inr (Or.inl rfl)
      | false =>
        by_cases missed : (P.req u).count d < (G.req u).count d
        · exact Or.inr (Or.inr ⟨same, Nat.eq_zero_of_not_pos counted, explicit, mendable.missed u (touched member).1 d missed⟩)
        · have free : FreeEdge P c u d := ⟨listed missed edge, Nat.eq_zero_of_not_pos counted⟩
          have inside : d ∈ entered := progress.next (within member) free.1 free.2
          by_cases needed : Needs P c root d
          · exact Or.inl ((known d).mpr (Or.inr ⟨inside, needed⟩))
          · have reached := (touched member).1.tail ⟨free, explicit⟩
            exact Or.inr (Or.inr (needless_harmless progress mendable rootless reached inside same explicit needed))
    case apart =>
      intro i harmless member
      obtain ⟨other, -, -, reaches⟩ := harmless
      obtain ⟨k, counted, walk⟩ := needs member other
      have zero := reaches k (needs_falls progress mendable rootless sub (within member) counted walk)
      omega
    case low =>
      intro u _
      split <;> omega
    case distinct => exact fun u member w among quiet hushed equal => (List.idxOf_inj (waits member quiet)).mp equal
    case forward =>
      intro u member other quiet
      have waiting := waits member quiet
      constructor
      · rw [← edges member other]
        rcases progress.single u waiting with root | one | cycle
        · exact absurd root other
        · omega
        · obtain ⟨k, counted, walk⟩ := needs member other
          rcases mendable.circular u (touched member).1 cycle with none | ⟨-, few⟩
          · have zero := none k walk
            omega
          · have unasked : Successors.edges P.req up u = 0 := edges_eq_zero.mpr fun w brought =>
              needed_unasked progress mendable rootless brought waiting other ⟨k, counted, walk⟩
            rw [progress.split u, unasked, Nat.zero_add]
            exact few
      · obtain ⟨p, before, follows, once⟩ := progress.forward u waiting other
        have inside := (progress.parts p).mpr (Or.inr before)
        have member' : p ∈ t := by
          rw [known]
          by_cases top : p = root
          · exact Or.inl top
          · obtain ⟨k, counted, walk⟩ := needs member other
            exact Or.inr ⟨inside, k, counted, .head ⟨top, progress.zero rootless inside, List.count_pos_iff.mp (by omega)⟩ walk⟩
        exact ⟨p, member', idle before, follows, by rw [← same member other member', once]⟩
    case backward =>
      intro u member other quiet w among edge
      have positive := List.count_pos_iff.mpr edge
      rw [← same member other among] at positive
      have waiting := waits member quiet
      have before : w ∈ stack.map Prod.fst := ((progress.parts w).mp (within among)).resolve_left fun brought =>
        needed_unasked progress mendable rootless brought waiting other (needs member other) (List.count_pos_iff.mp positive)
      exact ⟨idle before, progress.backward u waiting other w before (List.count_pos_iff.mp positive)⟩
    case asked =>
      intro u member other _
      rw [← edges member other]
      exact progress.asked (within member) other
    case acyclic =>
      intro s subset back
      refine needed_acyclic progress mendable rootless (fun u member => ⟨within (subset member), (back u member).1,
        needs (subset member) (back u member).1⟩) fun u member => ?_
      obtain ⟨other, w, before, edge, kind⟩ := back u member
      have positive := List.count_pos_iff.mpr edge
      rw [← same (subset member) other (subset before)] at positive
      exact ⟨w, before, List.count_pos_iff.mp positive, fun down => kind (if_neg down)⟩
  · rw [progress.counts k, needed_edges progress mendable rootless sub known (Or.inl counted), if_neg, Nat.add_zero]
    intro up
    have zero := progress.zero rootless (progress.within up)
    omega
  · rw [progress.counts u, edges member other, progress.zero rootless (within member), Nat.zero_add]

/-- After a failed bring-up that can be taken back, the teardown leaves alone what was counted before. -/
theorem mendable_unharmed (h : Down G [] (.run root l) c₁ true c' ev) (counted : 0 < c k) :
    k ∉ starts .preDown ev ∧ c' k = c k := by
  obtain ⟨t, own, undoing, kept, counts⟩ := progress_undoing progress mendable rootless sub
  exact undoing_unharmed undoing kept counts h counted

end

section
variable (progress : Halfway P c root stack entered up c₁) (rootless : c root = 0)
  (sub : ∀ u, (P.req u).Sublist (G.req u)) (acyclic : Acyclic G.req)
  (implicit : ∀ u ∈ entered, u ≠ root → G.explicit u = false) (h : Down G [] (.run root l) c₁ true c' ev)
include progress rootless sub acyclic implicit h

theorem entered_falls : ∀ u ∈ entered, u ∈ starts .preDown ev := by
  have none : entered \ (starts .preDown ev).toFinset = ∅ := by
    apply acyclic_empty acyclic
    intro u member
    obtain ⟨inside, outside⟩ := Finset.mem_sdiff.mp member
    have passed : u ∉ starts .preDown ev := fun listed => outside (List.mem_toFinset.mpr listed)
    have other : u ≠ root := by
      rintro rfl
      exact passed (down_started h (Or.inl ((down_run_true h).resolve_left List.not_mem_nil)))
    by_contra isolated
    -- then all edges to it have been counted down, and its own count is not enough to keep it
    have entries := down_entries acyclic h leads_nil rfl (implicit u inside other) List.not_mem_nil
      fun same => absurd (Option.some.inj same).symm other
    have deeper : ¬ (Task.run root l).root = some u := fun same => other (Option.some.inj same).symm
    have early : edges P.req (entered \ (starts .preDown ev).toFinset) u = 0 := by
      apply edges_eq_zero.mpr
      intro w member edge
      have positive := List.count_pos_iff.mpr edge
      exact isolated ⟨w, member, List.count_pos_iff.mp (positive.trans_le ((sub w).count_le u))⟩
    have split := edges_sdiff (g := P.req) (x := u) (@Finset.inter_subset_left _ _ entered (starts .preDown ev).toFinset)
    rw [Finset.sdiff_inter_self_left] at split
    have low := edges_parts sub (entered ∩ (starts .preDown ev).toFinset) u
    have all := edges_le_edgesFrom (g := G.req) (s := entered ∩ (starts .preDown ev).toFinset) (l := starts .preDown ev)
      (fun w both => List.mem_toFinset.mp (Finset.mem_inter.mp both).2) u
    have asked := progress.asked inside other
    have counts := progress.counts u
    have own : (if u ∈ up then 1 else 0) ≤ 1 := by split <;> omega
    rw [progress.zero rootless inside] at counts
    rw [if_neg deeper, List.count_eq_zero.mpr passed] at entries
    simp only [Task.rest, List.count_nil] at entries
    omega
  intro u member
  by_contra passed
  have left : u ∈ entered \ (starts .preDown ev).toFinset :=
    Finset.mem_sdiff.mpr ⟨member, fun listed => passed (List.mem_toFinset.mp listed)⟩
  rw [none] at left
  exact Finset.notMem_empty u left

/-- Below an edge that was not counted, every interface is entered once more than it has been counted for. -/
theorem missed_falls (member : u ∈ entered) (missed : (P.req u).count d < (G.req u).count d)
    (walk : Relation.ReflTransGen (Falling G c root) d k) : edges P.req entered k < edgesFrom G.req (starts .preDown ev) k := by
  have enters := entered_falls progress rootless sub acyclic implicit h
  induction walk with
  | refl =>
    have more : edges P.req entered d < edges G.req entered d := Finset.sum_lt_sum (fun w _ => (sub w).count_le d) ⟨u, member, missed⟩
    exact more.trans_le (edges_le_edgesFrom enters d)
  | @tail v x _ edge ih =>
    obtain ⟨⟨other, zero, edge⟩, hidden⟩ := edge
    have entries := down_entries acyclic h leads_nil rfl hidden List.not_mem_nil fun same => absurd (Option.some.inj same).symm other
    have deeper : ¬ (Task.run root l).root = some v := fun same => other (Option.some.inj same).symm
    rw [if_neg deeper] at entries
    simp only [Task.rest, List.count_nil] at entries
    have counts := progress.counts v
    rw [zero] at counts
    by_cases inside : v ∈ entered
    · have asked := progress.asked inside other
      have own : (if v ∈ up then 1 else 0) ≤ 1 := by split <;> omega
      exact (edges_parts sub entered x).trans_lt (edges_lt_edgesFrom enters inside (by omega) edge)
    · have outside : v ∉ up := fun up => inside (progress.within up)
      have none : edges P.req entered v = 0 := edges_eq_zero.mpr fun w member edge => inside (progress.next member edge zero)
      rw [if_neg outside, none] at counts
      have listed : v ∈ starts .preDown ev := List.count_pos_iff.mp (by omega)
      have more := edges_insert (g := G.req) (x := x) inside
      have all := edges_le_edgesFrom (g := G.req) (s := insert v entered) (l := starts .preDown ev)
        (fun w member => (Finset.mem_insert.mp member).elim (fun same => same ▸ listed) (enters w)) x
      have positive := List.count_pos_iff.mpr edge
      have low := edges_parts sub entered x
      omega

/-- Without cycles, and if all that was entered may be taken down, only such a bring-up leaves it alone. -/
theorem unharmed_mendable (unharmed : ∀ k, 0 < c k → k ∉ starts .preDown ev ∧ c' k = c k) : Mendable G P c root stack := by
  have inside {u : α} (touched : Touched G P c root u) : u ∈ entered :=
    (progress.reached u).mpr (Relation.ReflTransGen.mono (fun _ _ edge => edge.1) _ _ touched)
  have spent (k : α) (counted : 0 < c k) : edgesFrom G.req (starts .preDown ev) k = edges P.req entered k := by
    obtain ⟨passed, same⟩ := unharmed k counted
    have left := down_passed h rfl passed
    have counts := progress.counts k
    have idle : k ∉ up := fun up => by
      have zero := progress.zero rootless (progress.within up)
      omega
    rw [if_neg idle] at counts
    simp only [Task.rest, List.count_nil] at left
    omega
  refine ⟨fun u touched d missed k walk => ?_, fun u touched d edge explicit k walk => ?_, fun u touched k edge counted => ?_,
    fun u _ cycle => ?_⟩
  · by_contra counted
    have more := missed_falls progress rootless sub acyclic implicit h (inside touched) missed walk
    rw [spent k (Nat.pos_of_ne_zero counted)] at more
    exact Nat.lt_irrefl _ more
  · obtain ⟨_, first, -⟩ := Relation.TransGen.head'_iff.mp walk
    rw [implicit d (progress.next (inside touched) edge first.2.1) first.1] at explicit
    cases explicit
  · cases explicit : G.explicit k with
    | true => exact Or.inl rfl
    | false =>
      have other : k ≠ root := by
        rintro rfl
        omega
      obtain ⟨passed, same⟩ := unharmed k counted
      have entries := down_entries acyclic h leads_nil rfl explicit List.not_mem_nil
        fun same => absurd (Option.some.inj same).symm other
      have deeper : ¬ (Task.run root l).root = some k := fun same => other (Option.some.inj same).symm
      have left := down_passed h rfl passed
      have asked := edges_pos.mpr ⟨u, inside touched, edge⟩
      have all := spent k counted
      rw [if_neg deeper, List.count_eq_zero.mpr passed] at entries
      simp only [Task.rest, List.count_nil] at entries left
      exact Or.inr (by omega)
  · refine absurd (Relation.TransGen.mono (fun a b edge => ?_) _ _ cycle) (acyclic u)
    exact List.count_pos_iff.mp ((List.count_pos_iff.mpr edge.2.2).trans_le ((sub a).count_le b))

end

/-- What fails itself, over interfaces that are all counted and will not be taken down, can be taken back. -/
theorem mendable_alone (whole : P.req root = G.req root)
    (settled : ∀ d ∈ G.req root, 0 < c d ∧ (G.explicit d = true ∨ 1 < c d)) : Mendable G P c root stack := by
  have only {u : α} (touched : Touched G P c root u) : u = root := by
    induction touched with
    | refl => rfl
    | tail _ edge before =>
      subst before
      have counted := (settled _ (whole ▸ edge.1.1)).1
      exact absurd edge.1.2 counted.ne'
  refine ⟨fun u touched d missed => ?_, fun u touched d edge _ k walk => ?_, fun u touched k edge _ => ?_, fun u touched cycle => ?_⟩
  · rw [only touched, whole] at missed
    exact absurd missed (Nat.lt_irrefl _)
  · obtain ⟨_, first, -⟩ := Relation.TransGen.head'_iff.mp walk
    have counted := (settled d (by rwa [only touched, whole] at edge)).1
    exact absurd first.2.1 counted.ne'
  · exact (settled k (by rwa [only touched, whole] at edge)).2
  · obtain ⟨_, first, -⟩ := Relation.TransGen.head'_iff.mp cycle
    exact absurd (only touched) first.1

end Ifupdown
