import Mathlib.Data.List.Chain
import Mathlib.Data.List.Nodup
import Ifupdown.Base.Successors

/-! Depth-first drawings of a graph, which do not come to a vertex that they are below of. -/
namespace Successors

open Relation

variable {α : Type}

/-- Below `x` the edges `es` are drawn for these successors, while the vertices of the path are avoided. -/
inductive Draws (g : α → List α) : List α → α → List α → List (α × α) → Prop where
  | nil {path : List α} {x : α} : Draws g path x [] []
  | skip {path : List α} {x d : α} {ds : List α} {es : List (α × α)} (again : d ∈ path)
      (later : Draws g path x ds es) : Draws g path x (d :: ds) es
  | cons {path : List α} {x d : α} {ds : List α} {es es' : List (α × α)} (fresh : d ∉ path)
      (below : Draws g (d :: path) d (g d) es) (later : Draws g path x ds es') :
      Draws g path x (d :: ds) ((x, d) :: (es ++ es'))

inductive Branch (g : α → List α) : List α → α → α × α → Prop where
  | here {path : List α} {x d : α} (edge : d ∈ g x) (fresh : d ∉ path) : Branch g path x (x, d)
  | deeper {path : List α} {x d : α} {e : α × α} (edge : d ∈ g x) (fresh : d ∉ path) (branch : Branch g (d :: path) d e) : Branch g path x e

variable {g : α → List α} {path ds : List α} {x y p c d : α} {e : α × α} {es : List (α × α)}

theorem mem_draws (draws : Draws g path x ds es) :
    e ∈ es ↔ ∃ d ∈ ds, d ∉ path ∧ (e = (x, d) ∨ Branch g (d :: path) d e) := by
  induction draws with
  | nil => simp
  | @skip path x d ds es again _ ih =>
    rw [ih]
    constructor
    · rintro ⟨c, member, rest⟩
      exact ⟨c, List.mem_cons_of_mem _ member, rest⟩
    · rintro ⟨c, member, fresh, rest⟩
      rcases List.mem_cons.mp member with rfl | member
      · exact absurd again fresh
      · exact ⟨c, member, fresh, rest⟩
  | @cons path x d ds es es' fresh _ _ ihBelow ihLater =>
    have inner : e ∈ es ↔ Branch g (d :: path) d e := by
      rw [ihBelow]
      constructor
      · rintro ⟨c, edge, fresh, rfl | branch⟩
        · exact .here edge fresh
        · exact .deeper edge fresh branch
      · rintro (⟨edge, fresh⟩ | ⟨edge, fresh, branch⟩)
        · exact ⟨_, edge, fresh, Or.inl rfl⟩
        · exact ⟨_, edge, fresh, Or.inr branch⟩
    rw [List.mem_cons, List.mem_append, inner, ihLater]
    constructor
    · rintro (same | branch | ⟨c, member, rest⟩)
      · exact ⟨d, List.mem_cons_self, fresh, Or.inl same⟩
      · exact ⟨d, List.mem_cons_self, fresh, Or.inr branch⟩
      · exact ⟨c, List.mem_cons_of_mem _ member, rest⟩
    · rintro ⟨c, member, away, rest⟩
      rcases List.mem_cons.mp member with rfl | member
      · exact rest.imp_right Or.inl
      · exact Or.inr (Or.inr ⟨c, member, away, rest⟩)

theorem mem_draws_all (draws : Draws g path x (g x) es) : e ∈ es ↔ Branch g path x e := by
  rw [mem_draws draws]
  constructor
  · rintro ⟨d, edge, fresh, rfl | branch⟩
    · exact .here edge fresh
    · exact .deeper edge fresh branch
  · rintro (⟨edge, fresh⟩ | ⟨edge, fresh, branch⟩)
    · exact ⟨_, edge, fresh, Or.inl rfl⟩
    · exact ⟨_, edge, fresh, Or.inr branch⟩

/-- The walks that lead to an edge do not come to a vertex twice, but for the first one. -/
theorem branch_iff : Branch g path x (p, c) ↔
    ∃ xs, List.IsChain (Edge g) (x :: (xs ++ [c])) ∧ (x :: xs).getLast? = some p ∧ (xs ++ [c]).Nodup ∧ ∀ y ∈ xs ++ [c], y ∉ path := by
  constructor
  · intro branch
    generalize named : (p, c) = e at branch
    induction branch generalizing p c with
    | @here path x d edge fresh =>
      cases named
      exact ⟨[], .cons_cons edge (.singleton d), rfl, List.nodup_singleton d, by simpa using fresh⟩
    | @deeper path x d e edge fresh _ ih =>
      obtain ⟨xs, chain, last, distinct, away⟩ := ih named
      have apart : d ∉ xs ++ [c] := fun member => away d member List.mem_cons_self
      refine ⟨d :: xs, .cons_cons edge chain, last, List.nodup_cons.mpr ⟨apart, distinct⟩, fun y member => ?_⟩
      rcases List.mem_cons.mp member with rfl | member
      · exact fresh
      · exact fun inside => away y member (List.mem_cons_of_mem _ inside)
  · rintro ⟨xs, chain, last, distinct, away⟩
    induction xs generalizing x path with
    | nil =>
      cases last
      exact .here (List.isChain_cons_cons.mp chain).1 (away c List.mem_cons_self)
    | cons d xs ih =>
      obtain ⟨edge, chain⟩ := List.isChain_cons_cons.mp chain
      obtain ⟨apart, distinct⟩ := List.nodup_cons.mp distinct
      refine .deeper edge (away d List.mem_cons_self) (ih chain last distinct fun y member inside => ?_)
      rcases List.mem_cons.mp inside with rfl | inside
      · exact apart member
      · exact away y (List.mem_cons_of_mem _ member) inside

theorem branch_reaches (branch : Branch g path x (p, c)) : ReflTransGen (Edge g) x p ∧ c ∈ g p := by
  generalize named : (p, c) = e at branch
  induction branch with
  | here edge =>
    cases named
    exact ⟨.refl, edge⟩
  | deeper edge _ _ ih => exact ⟨.head edge (ih named).1, (ih named).2⟩

/-- Where no walk leads back, nothing is left out. -/
theorem branch_acyclic (acyclic : Acyclic g) (behind : ∀ y ∈ path, ReflTransGen (Edge g) y x) (reach : ReflTransGen (Edge g) x p)
    (edge : c ∈ g p) : Branch g path x (p, c) := by
  have fresh {x d : α} {path : List α} (behind : ∀ y ∈ path, ReflTransGen (Edge g) y x) (edge : d ∈ g x) : d ∉ path :=
    fun member => acyclic d (TransGen.tail' (behind d member) edge)
  induction reach using ReflTransGen.head_induction_on generalizing path with
  | refl => exact .here edge (fresh behind edge)
  | @head x d step _ ih =>
    refine .deeper step (fresh behind step) (ih fun y member => ?_)
    rcases List.mem_cons.mp member with rfl | member
    · exact .refl
    · exact (behind y member).tail step

end Successors
