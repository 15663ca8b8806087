import Mathlib.Algebra.BigOperators.Group.Finset.Basic
import Mathlib.Algebra.BigOperators.Group.Finset.Piecewise
import Mathlib.Algebra.GroupWithZero.Nat
import Mathlib.Algebra.Order.BigOperators.Group.Finset
import Mathlib.Logic.Relation
import Mathlib.Order.WellFoundedSet

/-! Directed multigraphs given by successor lists: how many edges lead from a set of
vertices to a vertex, and which vertices a walk reaches. -/
namespace Successors

variable {α : Type} [DecidableEq α] (g : α → List α)

/-- The number of edges from the vertices of `s` to `x`. -/
def edges (s : Finset α) (x : α) : Nat := ∑ j ∈ s, (g j).count x

omit [DecidableEq α] in
def Edge (a b : α) : Prop := b ∈ g a

def Acyclic : Prop := ∀ a, ¬ Relation.TransGen (Edge g) a a

omit [DecidableEq α] in
/-- Edges that all lead up some ranking close no cycle. -/
theorem acyclic_of_rank {g : α → List α} (rank : α → Nat) (rises : ∀ a, ∀ b ∈ g a, rank a < rank b) :
    Acyclic g := by
  have higher {a b : α} (walk : Relation.TransGen (Edge g) a b) : rank a < rank b := by
    induction walk with
    | single edge => exact rises _ _ edge
    | tail _ edge ih => exact ih.trans (rises _ _ edge)
  intro a walk
  exact Nat.lt_irrefl _ (higher walk)

omit [DecidableEq α] in
/-- In a finite set, walking back along a relation without cycles comes to an end. -/
theorem walk_back_empty {r : α → α → Prop} (acyclic : ∀ a, ¬ Relation.TransGen r a a) {s : Finset α}
    (back : ∀ a ∈ s, ∃ b ∈ s, r b a) : s = ∅ := by
  have order : IsStrictOrder α (Relation.TransGen r) :=
    { irrefl := acyclic
      trans := fun _ _ _ => Relation.TransGen.trans }
  apply Finset.eq_empty_of_forall_notMem
  intro a member
  have wellFounded : (s : Set α).WellFoundedOn (Relation.TransGen r) := s.finite_toSet.wellFoundedOn
  apply wellFounded.induction (P := fun _ => False) member
  intro a member none
  obtain ⟨b, inside, edge⟩ := back a member
  exact none b inside (.single edge)

omit [DecidableEq α] in
theorem acyclic_empty {g : α → List α} (acyclic : Acyclic g) {s : Finset α}
    (back : ∀ a ∈ s, ∃ b ∈ s, a ∈ g b) : s = ∅ := walk_back_empty acyclic back

@[simp] theorem edges_empty (x : α) : edges g ∅ x = 0 := rfl

variable {g}

theorem edges_insert {s : Finset α} {a x : α} (h : a ∉ s) :
    edges g (insert a s) x = (g a).count x + edges g s x := Finset.sum_insert h

@[simp] theorem edges_singleton {a x : α} : edges g {a} x = (g a).count x :=
  Finset.sum_singleton ..

theorem edges_erase {s : Finset α} {a x : α} (h : a ∈ s) :
    (g a).count x + edges g (s.erase a) x = edges g s x :=
  Finset.add_sum_erase s (fun j => (g j).count x) h

theorem edges_union {s t : Finset α} {x : α} (h : Disjoint s t) :
    edges g (s ∪ t) x = edges g s x + edges g t x := Finset.sum_union h

theorem edges_union_le (s t : Finset α) (x : α) :
    edges g (s ∪ t) x ≤ edges g s x + edges g t x := by
  have both : edges g (s ∪ t) x + edges g (s ∩ t) x = edges g s x + edges g t x := Finset.sum_union_inter
  omega

theorem edges_sdiff {s t : Finset α} {x : α} (h : t ⊆ s) :
    edges g (s \ t) x + edges g t x = edges g s x := Finset.sum_sdiff h

theorem edges_mono {s t : Finset α} {x : α} (h : s ⊆ t) : edges g s x ≤ edges g t x :=
  Finset.sum_le_sum_of_subset h

theorem edges_parts {f g : α → List α} (parts : ∀ a, (f a).Sublist (g a)) (s : Finset α) (x : α) : edges f s x ≤ edges g s x :=
  Finset.sum_le_sum fun a _ => (parts a).count_le x

theorem edges_eq_zero {s : Finset α} {x : α} : edges g s x = 0 ↔ ∀ a ∈ s, x ∉ g a := by
  simp [edges, Finset.sum_eq_zero_iff, List.count_eq_zero]

theorem edges_pos {s : Finset α} {x : α} : 0 < edges g s x ↔ ∃ a ∈ s, x ∈ g a := by
  rw [Nat.pos_iff_ne_zero, Ne, edges_eq_zero]
  simp

omit [DecidableEq α] in
theorem indicator_le {p q r : Prop} [Decidable p] [Decidable q] [Decidable r] (h : p → q ∨ r) :
    (if p then 1 else 0) ≤ (if q then 1 else 0) + if r then 1 else 0 := by
  by_cases hq : q <;> by_cases hr : r <;> by_cases hp : p <;> simp_all

theorem indicator_union {s t : Finset α} (h : Disjoint s t) (x : α) :
    (if x ∈ s ∪ t then 1 else 0) = (if x ∈ s then 1 else 0) + if x ∈ t then 1 else 0 := by
  have both : ¬ (x ∈ s ∧ x ∈ t) := fun both => Finset.disjoint_left.mp h both.1 both.2
  by_cases hs : x ∈ s <;> by_cases ht : x ∈ t <;> simp_all

theorem edges_eq_card {s : Finset α} {x : α} (h : ∀ a ∈ s, (g a).Nodup) :
    edges g s x = (s.filter (fun a => x ∈ g a)).card := by
  rw [Finset.card_filter]
  refine Finset.sum_congr rfl fun a member => ?_
  split
  · exact List.count_eq_one_of_mem (h a member) ‹_›
  · exact List.count_eq_zero.mpr ‹_›

/-- The number of edges to `x` from the vertices of a list, each as often as it occurs. -/
def edgesFrom (g : α → List α) (l : List α) (x : α) : Nat := (l.map fun a => (g a).count x).sum

@[simp] theorem edgesFrom_nil (x : α) : edgesFrom g [] x = 0 := rfl

@[simp] theorem edgesFrom_cons (a : α) (l : List α) (x : α) :
    edgesFrom g (a :: l) x = (g a).count x + edgesFrom g l x := rfl

@[simp] theorem edgesFrom_append (l k : List α) (x : α) :
    edgesFrom g (l ++ k) x = edgesFrom g l x + edgesFrom g k x := by
  simp [edgesFrom]

theorem edgesFrom_eq_zero {l : List α} {x : α} (h : ∀ a ∈ l, x ∉ g a) : edgesFrom g l x = 0 := by
  induction l with
  | nil => rfl
  | cons a l ih =>
    obtain ⟨here, later⟩ := List.forall_mem_cons.mp h
    rw [edgesFrom_cons, List.count_eq_zero.mpr here, ih later]

theorem weighted_le_edgesFrom {s : Finset α} {l : List α} {w : α → Nat} (often : ∀ a ∈ s, w a ≤ l.count a) (x : α) :
    ∑ a ∈ s, w a * (g a).count x ≤ edgesFrom g l x := by
  rw [edgesFrom, Finset.sum_list_map_count]
  calc ∑ a ∈ s, w a * (g a).count x
      ≤ ∑ a ∈ s ∪ l.toFinset, l.count a * (g a).count x := by
        refine (Finset.sum_le_sum fun a member => Nat.mul_le_mul_right _ (often a member)).trans ?_
        exact Finset.sum_le_sum_of_subset Finset.subset_union_left
    _ = ∑ a ∈ l.toFinset, l.count a • (g a).count x := by
        refine (Finset.sum_subset Finset.subset_union_right fun a _ absent => ?_).symm
        rw [List.count_eq_zero.mpr (fun listed => absent (List.mem_toFinset.mpr listed)), Nat.zero_mul]

theorem edges_le_edgesFrom {s : Finset α} {l : List α} (occur : ∀ a ∈ s, a ∈ l) (x : α) :
    edges g s x ≤ edgesFrom g l x := by
  have weighted := weighted_le_edgesFrom (g := g) (w := fun _ => 1)
    (fun a member => List.one_le_count_iff.mpr (occur a member)) x
  simpa [edges] using weighted

theorem edges_lt_edgesFrom {s : Finset α} {l : List α} {a x : α} (occur : ∀ b ∈ s, b ∈ l) (member : a ∈ s)
    (twice : 2 ≤ l.count a) (edge : x ∈ g a) : edges g s x < edgesFrom g l x := by
  have weighted := weighted_le_edgesFrom (g := g) (s := s) (l := l) (w := fun b => if b = a then 2 else 1)
    (by
      intro b inside
      split
      · rename_i same
        exact same ▸ twice
      · exact List.one_le_count_iff.mpr (occur b inside)) x
  have positive := List.count_pos_iff.mpr edge
  have split := edges_erase (g := g) (x := x) member
  have same : ∑ b ∈ s, (if b = a then 2 else 1) * (g b).count x = 2 * (g a).count x + edges g (s.erase a) x := by
    rw [← Finset.add_sum_erase s _ member, if_pos rfl]
    congr 1
    refine Finset.sum_congr rfl fun b inside => ?_
    rw [if_neg (Finset.ne_of_mem_erase inside), Nat.one_mul]
  omega

end Successors
