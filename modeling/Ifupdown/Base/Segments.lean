import Mathlib.Data.List.Basic
import Mathlib.Logic.Function.Basic

/-! Doubly linked nodes in a memory, and the stretches of nodes that are linked to each other. -/
namespace Segments

structure Node (A α : Type) where
  prev : Option A := none
  next : Option A := none
  data : Option α := none

abbrev Memory (A α : Type) := A → Node A α

variable {A α : Type}

def first : List (A × α) → Option A → Option A
  | [], behind => behind
  | (a, _) :: _, _ => some a

def last : Option A → List (A × α) → Option A
  | before, [] => before
  | _, (a, _) :: rest => last (some a) rest

/-- Between `before` and `behind` the nodes with these addresses and data are linked in both directions. -/
def Seg (m : Memory A α) : Option A → List (A × α) → Option A → Prop
  | _, [], _ => True
  | before, (a, d) :: rest, behind => m a = ⟨before, first rest behind, some d⟩ ∧ Seg m (some a) rest behind

variable {m m' : Memory A α} {before behind : Option A} {xs ys nodes : List (A × α)} {a b : A} {d : α}

@[simp] theorem first_append : first (xs ++ ys) behind = first xs (first ys behind) := by
  cases xs <;> rfl

@[simp] theorem last_append : last before (xs ++ ys) = last (last before xs) ys := by
  induction xs generalizing before with
  | nil => rfl
  | cons node xs ih => exact ih

theorem first_mem (found : first nodes none = some a) : a ∈ nodes.map Prod.fst := by
  cases nodes with
  | nil => cases found
  | cons node nodes =>
    cases found
    exact List.mem_cons_self

theorem last_cases : last before nodes = before ∧ nodes = [] ∨ ∃ a ∈ nodes.map Prod.fst, last before nodes = some a := by
  induction nodes generalizing before with
  | nil => exact Or.inl ⟨rfl, rfl⟩
  | cons node nodes ih =>
    rcases @ih (some node.1) with ⟨same, rfl⟩ | ⟨a, member, found⟩
    · exact Or.inr ⟨node.1, List.mem_cons_self, rfl⟩
    · exact Or.inr ⟨a, List.mem_cons_of_mem _ member, found⟩

theorem first_ne (away : a ∉ nodes.map Prod.fst) : first nodes none ≠ some a := fun found => away (first_mem found)

theorem last_ne (away : a ∉ nodes.map Prod.fst) : last none nodes ≠ some a := by
  intro own
  rcases @last_cases _ _ none nodes with ⟨same, -⟩ | ⟨b, inside, found⟩
  · exact nomatch same.symm.trans own
  · have same : b = a := Option.some.inj (found.symm.trans own)
    exact away (same ▸ inside)

theorem seg_append : Seg m before (xs ++ ys) behind ↔ Seg m before xs (first ys behind) ∧ Seg m (last before xs) ys behind := by
  induction xs generalizing before with
  | nil => simp [Seg, last]
  | cons node xs ih => simp [Seg, last, ih, and_assoc]

theorem seg_congr (same : ∀ a ∈ nodes.map Prod.fst, m' a = m a) (seg : Seg m before nodes behind) : Seg m' before nodes behind := by
  induction nodes generalizing before with
  | nil => trivial
  | cons node nodes ih =>
    obtain ⟨here, later⟩ := List.forall_mem_cons.mp same
    exact ⟨here.trans seg.1, ih later seg.2⟩

section
variable [DecidableEq A]

def setNext (m : Memory A α) (a next : Option A) : Memory A α :=
  match a with
  | none => m
  | some a => Function.update m a { m a with next := next }

def setPrev (m : Memory A α) (a prev : Option A) : Memory A α :=
  match a with
  | none => m
  | some a => Function.update m a { m a with prev := prev }

theorem setNext_other {at_ next : Option A} (other : at_ ≠ some b) : setNext m at_ next b = m b := by
  cases at_ with
  | none => rfl
  | some a => exact Function.update_of_ne (fun same => other (congrArg some same.symm)) ..

theorem setPrev_other {at_ prev : Option A} (other : at_ ≠ some b) : setPrev m at_ prev b = m b := by
  cases at_ with
  | none => rfl
  | some a => exact Function.update_of_ne (fun same => other (congrArg some same.symm)) ..

theorem seg_setNext {next : Option A} (distinct : (nodes.map Prod.fst).Nodup) (seg : Seg m before nodes behind) :
    Seg (setNext m (last before nodes) next) before nodes next := by
  rcases List.eq_nil_or_concat' nodes with rfl | ⟨front, ⟨a, d⟩, rfl⟩
  · trivial
  · rw [seg_append] at seg ⊢
    rw [List.map_append, List.nodup_append] at distinct
    rw [last_append]
    refine ⟨seg_congr (fun b member => setNext_other ?_) seg.1, ?_, trivial⟩
    · rintro ⟨⟩
      exact distinct.2.2 a member a (List.mem_singleton_self a) rfl
    · have here := seg.2.1
      simp only [last, setNext, Function.update_self, here]
      rfl

theorem seg_setPrev {prev : Option A} (distinct : (nodes.map Prod.fst).Nodup) (seg : Seg m before nodes none) :
    Seg (setPrev m (first nodes none) prev) prev nodes none := by
  cases nodes with
  | nil => trivial
  | cons node nodes =>
    obtain ⟨fresh, -⟩ := List.nodup_cons.mp distinct
    refine ⟨?_, seg_congr (fun b member => setPrev_other ?_) seg.2⟩
    · have here := seg.1
      simp only [first, setPrev, Function.update_self, here]
    · rintro ⟨⟩
      exact fresh member

end

end Segments
