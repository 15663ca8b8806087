import Mathlib.Data.List.Perm.Subperm
import Mathlib.Data.List.Nodup
import Mathlib.Data.List.Range

/-! Lists put in order by a rank, with equal ranks in the order they had. -/
namespace Buckets

variable {α : Type} (rank : α → Nat)

/-- The elements of rank 0, then those of rank 1, and so on up to `top`. -/
def buckets (top : Nat) (l : List α) : List α :=
  (List.range (top + 1)).flatMap fun n => l.filter fun x => rank x = n

variable {rank} {top : Nat} {l : List α} {a b : α}

theorem buckets_succ (top : Nat) (l : List α) :
    buckets rank (top + 1) l = buckets rank top l ++ l.filter fun x => rank x = top + 1 := by
  rw [buckets, List.range_succ, List.flatMap_append]
  simp [buckets]

theorem buckets_filter (top : Nat) (l : List α) :
    buckets rank top (l.filter fun x => rank x ≠ top + 1) = buckets rank top l := by
  unfold buckets
  refine List.flatMap_congr fun n inside => ?_
  rw [List.filter_filter]
  refine List.filter_congr fun x _ => ?_
  have low := List.mem_range.mp inside
  by_cases same : rank x = n
  · simp [same, show n ≠ top + 1 by omega]
  · simp [same]

theorem mem_buckets (bound : ∀ x ∈ l, rank x ≤ top) : a ∈ buckets rank top l ↔ a ∈ l := by
  simp only [buckets, List.mem_flatMap, List.mem_range, List.mem_filter, decide_eq_true_eq]
  constructor
  · rintro ⟨n, -, member, -⟩
    exact member
  · intro member
    have low := bound a member
    exact ⟨rank a, by omega, member, rfl⟩

theorem buckets_perm (bound : ∀ x ∈ l, rank x ≤ top) : (buckets rank top l).Perm l := by
  induction top generalizing l with
  | zero =>
    have all : l.filter (fun x => rank x = 0) = l := List.filter_eq_self.mpr fun x member => by simpa using bound x member
    simp [buckets, all]
  | succ top ih =>
    have lower : ∀ x ∈ l.filter fun x => rank x ≠ top + 1, rank x ≤ top := by
      intro x member
      obtain ⟨inside, other⟩ := List.mem_filter.mp member
      have low := bound x inside
      simp only [ne_eq, decide_eq_true_eq] at other
      omega
    have split := List.filter_append_perm (fun x => decide (rank x ≠ top + 1)) l
    simp only [ne_eq, decide_not, Bool.not_not] at split
    rw [buckets_succ, ← buckets_filter]
    exact ((ih lower).append_right _).trans (by simpa using split)

/-- Lower ranks come first, equal ones in their old order. -/
def Ahead (rank : α → Nat) (l : List α) (a b : α) : Prop :=
  rank a < rank b ∨ rank a = rank b ∧ [a, b].Sublist l

theorem pairwise_buckets (top : Nat) (l : List α) : (buckets rank top l).Pairwise (Ahead rank l) := by
  refine List.pairwise_flatMap.mpr ⟨fun n _ => ?_, ?_⟩
  · refine List.pairwise_iff_forall_sublist.mpr fun {x y} pair => ?_
    have kept {z : α} (member : z ∈ [x, y]) : rank z = n := by
      simpa using (List.mem_filter.mp (pair.subset member)).2
    exact Or.inr ⟨(kept (by simp)).trans (kept (by simp)).symm, pair.trans List.filter_sublist⟩
  · refine List.pairwise_lt_range.imp fun {n m} less x low y high => Or.inl ?_
    have first := (List.mem_filter.mp low).2
    have second := (List.mem_filter.mp high).2
    simp only [decide_eq_true_eq] at first second
    omega

theorem pair_unique (distinct : l.Nodup) (earlier : [a, b].Sublist l) (later : [b, a].Sublist l) : a = b := by
  induction l with
  | nil => cases earlier
  | cons c l ih =>
    obtain ⟨fresh, distinct⟩ := List.nodup_cons.mp distinct
    cases earlier with
    | cons _ earlier =>
      cases later with
      | cons _ later => exact ih distinct earlier later
      | cons_cons _ later => exact absurd (earlier.subset (by simp)) fresh
    | cons_cons _ earlier =>
      cases later with
      | cons _ later => exact absurd (later.subset (by simp)) fresh
      | cons_cons _ later => rfl

theorem ahead_asymm (distinct : l.Nodup) (other : a ≠ b) (first : Ahead rank l a b) : ¬ Ahead rank l b a := by
  intro second
  unfold Ahead at first second
  rcases first with less | ⟨same, earlier⟩
  · omega
  · rcases second with less | ⟨-, later⟩
    · omega
    · exact other (pair_unique distinct earlier later)

theorem pair_or (mem_a : a ∈ l) (mem_b : b ∈ l) (other : a ≠ b) : [a, b].Sublist l ∨ [b, a].Sublist l := by
  induction l with
  | nil => cases mem_a
  | cons c l ih =>
    rcases List.mem_cons.mp mem_a with rfl | later_a
    · have later_b := (List.mem_cons.mp mem_b).resolve_left other.symm
      exact Or.inl ((List.singleton_sublist.mpr later_b).cons_cons a)
    · rcases List.mem_cons.mp mem_b with rfl | later_b
      · exact Or.inr ((List.singleton_sublist.mpr later_a).cons_cons b)
      · exact (ih later_a later_b).imp (List.Sublist.cons c) (List.Sublist.cons c)

theorem pair_buckets (bound : ∀ x ∈ l, rank x ≤ top) (distinct : l.Nodup) (mem_a : a ∈ l) (mem_b : b ∈ l)
    (other : a ≠ b) : [a, b].Sublist (buckets rank top l) ↔ Ahead rank l a b := by
  have ordered {x y : α} (pair : [x, y].Sublist (buckets rank top l)) : Ahead rank l x y :=
    List.pairwise_iff_forall_sublist.mp (pairwise_buckets top l) pair
  refine ⟨ordered, fun ahead => ?_⟩
  rcases pair_or ((mem_buckets bound).mpr mem_a) ((mem_buckets bound).mpr mem_b) other with pair | pair
  · exact pair
  · exact absurd (ordered pair) (ahead_asymm distinct other ahead)

end Buckets
