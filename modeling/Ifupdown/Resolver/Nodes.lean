import Ifupdown.Model.Lists
import Ifupdown.Resolver.Survey

/-! What the operations on linked lists do to the nodes that a list holds. -/
namespace Ifupdown

open Segments Buckets

/-- The list consists of these nodes, each at an address of its own. -/
structure LifList.Holds {A α : Type} (m : Memory A α) (list : LifList A) (nodes : List (A × α)) : Prop where
  distinct : (nodes.map Prod.fst).Nodup
  head : list.head = first nodes none
  tail : list.tail = last none nodes
  length : list.length = nodes.length
  seg : Seg m none nodes none

section
variable {A α : Type} {m m' : Memory A α} {list source target : LifList A} {a b : A} {d : α}
  {before behind nodes kept rest others : List (A × α)}

theorem holds_empty (m : Memory A α) : LifList.Holds m {} [] := ⟨List.nodup_nil, rfl, rfl, rfl, trivial⟩

theorem LifList.Holds.congr (holds : list.Holds m nodes) (same : ∀ a ∈ nodes.map Prod.fst, m' a = m a) : list.Holds m' nodes :=
  { holds with seg := seg_congr same holds.seg }

variable [DecidableEq A]

/-- A node at an address that the list does not use becomes its first one. -/
theorem insert_holds (holds : list.Holds m nodes) (fresh : a ∉ nodes.map Prod.fst) (prev : (m a).prev = none) (next : (m a).next = none) :
    (lifNodeInsert a (some d) m list).2.Holds (lifNodeInsert a (some d) m list).1 ((a, d) :: nodes) ∧
      ∀ b ∉ a :: nodes.map Prod.fst, (lifNodeInsert a (some d) m list).1 b = m b := by
  obtain ⟨distinct, head, tail, length, seg⟩ := holds
  have distinct' : (((a, d) :: nodes).map Prod.fst).Nodup := List.nodup_cons.mpr ⟨fresh, distinct⟩
  cases nodes with
  | nil =>
    unfold lifNodeInsert
    rw [head]
    refine ⟨⟨distinct', rfl, rfl, rfl, ?_, trivial⟩, fun b other => ?_⟩
    · simp [prev, next, first]
    · exact Function.update_of_ne (fun same => other (List.mem_cons.mpr (Or.inl same))) ..
  | cons node nodes =>
    obtain ⟨t, e⟩ := node
    have other : t ≠ a := fun same => fresh (same ▸ List.mem_cons_self)
    have inner : t ∉ nodes.map Prod.fst := (List.nodup_cons.mp distinct).1
    have here := seg.1
    unfold lifNodeInsert
    rw [head]
    dsimp only [first]
    refine ⟨⟨distinct', rfl, ?_, ?_, ?_, ?_, seg_congr (fun b member => ?_) seg.2⟩, fun b away => ?_⟩
    · rw [tail]
      rfl
    · rw [length]
      rfl
    · rw [Function.update_of_ne other.symm, Function.update_self, Function.update_self, prev]
      rfl
    · rw [Function.update_self, Function.update_of_ne other, Function.update_of_ne other, here]
    · have apart : b ≠ t := fun same => inner (same ▸ member)
      have fresh : b ≠ a := fun same => fresh (same ▸ List.mem_cons_of_mem _ member)
      rw [Function.update_of_ne apart, Function.update_of_ne fresh, Function.update_of_ne fresh]
    · obtain ⟨own, away⟩ := not_or.mp (fun h => away (List.mem_cons.mpr h))
      obtain ⟨apart, -⟩ := not_or.mp (fun h => away (List.mem_cons.mpr h))
      rw [Function.update_of_ne apart, Function.update_of_ne own, Function.update_of_ne own]

/-- What a node says of its neighbours is read before they are linked to each other. -/
theorem delete_eq (other : (m a).prev ≠ some a) : lifNodeDelete a m list =
    (setPrev (setNext m (m a).prev (m a).next) (m a).next (m a).prev,
      { head := if (m a).prev.isNone then (m a).next else list.head
        tail := if (m a).next.isNone then (m a).prev else list.tail
        length := list.length - 1 }) := by
  unfold lifNodeDelete
  dsimp only
  cases prev_ : (m a).prev with
  | none =>
    dsimp only
    cases next_ : (m a).next <;> simp [prev_, setPrev, setNext]
  | some prev =>
    have apart : a ≠ prev := fun same => other (prev_.trans (congrArg some same.symm))
    dsimp only
    rw [Function.update_of_ne apart]
    cases next_ : (m a).next <;> simp [prev_, setPrev, setNext]

/-- What is deleted is linked around, wherever it stands. -/
theorem delete_holds (holds : list.Holds m (before ++ (a, d) :: behind)) :
    (lifNodeDelete a m list).2.Holds (lifNodeDelete a m list).1 (before ++ behind) ∧
      ∀ b ∉ (before ++ behind).map Prod.fst, (lifNodeDelete a m list).1 b = m b := by
  obtain ⟨distinct, head, tail, length, seg⟩ := holds
  rw [List.map_append, List.map_cons] at distinct
  obtain ⟨inFront, after, cross⟩ := List.nodup_append.mp distinct
  obtain ⟨fresh, inBack⟩ := List.nodup_cons.mp after
  obtain ⟨front, here, back⟩ := seg_append.mp seg
  have absent : a ∉ before.map Prod.fst := fun member => cross a member a List.mem_cons_self rfl
  have deleted := @delete_eq _ _ m list a _ (by rw [here]; exact last_ne absent)
  rw [here] at deleted
  dsimp only at deleted
  rw [deleted]
  refine ⟨⟨?_, ?_, ?_, ?_, ?_⟩, fun b away => ?_⟩
  · rw [List.map_append]
    exact List.nodup_append.mpr ⟨inFront, inBack, fun b member c inside => cross b member c (List.mem_cons_of_mem _ inside)⟩
  · dsimp only
    rw [head, first_append, first_append]
    cases before with
    | nil => rfl
    | cons node before =>
      obtain ⟨c, -, found⟩ := (@last_cases _ _ none (node :: before)).resolve_left (fun h => nomatch h.2)
      rw [found]
      rfl
  · dsimp only
    rw [tail, last_append, last_append]
    cases behind <;> rfl
  · dsimp only
    rw [length, List.length_append, List.length_append, List.length_cons]
    omega
  · rw [seg_append]
    constructor
    · refine seg_congr (fun b member => setPrev_other ?_) (seg_setNext inFront front)
      exact first_ne fun inside => cross b member b (List.mem_cons_of_mem _ inside) rfl
    · refine seg_setPrev inBack (seg_congr (fun b member => setNext_other ?_) back)
      exact last_ne fun inside => cross b inside b (List.mem_cons_of_mem _ member) rfl
  · rw [List.map_append, List.mem_append, not_or] at away
    exact (setPrev_other (first_ne away.2)).trans (setNext_other (last_ne away.1))

theorem insertTail_holds (holds : list.Holds m nodes) (fresh : a ∉ nodes.map Prod.fst) (prev : (m a).prev = none)
    (next : (m a).next = none) :
    (lifNodeInsertTail a (some d) m list).2.Holds (lifNodeInsertTail a (some d) m list).1 (nodes ++ [(a, d)]) := by
  obtain ⟨distinct, head, tail, length, seg⟩ := holds
  have distinct' : ((nodes ++ [(a, d)]).map Prod.fst).Nodup := by
    rw [List.map_append]
    refine List.nodup_append.mpr ⟨distinct, List.nodup_singleton _, fun b member c single same => fresh ?_⟩
    have own : c = a := List.mem_singleton.mp single
    rwa [← own, ← same]
  rcases List.eq_nil_or_concat' nodes with rfl | ⟨front, ⟨t, e⟩, rfl⟩
  · unfold lifNodeInsertTail
    rw [tail]
    refine ⟨distinct', rfl, rfl, rfl, ?_, trivial⟩
    simp [prev, next, first, last]
  · rw [List.map_append] at fresh distinct
    have other : t ≠ a := fun same => fresh (List.mem_append_right _ (same ▸ List.mem_cons_self))
    obtain ⟨front_, here, -⟩ := seg_append.mp seg
    unfold lifNodeInsertTail
    rw [tail, last_append]
    dsimp only [last]
    refine ⟨distinct', ?_, ?_, ?_, seg_append.mpr ⟨seg_append.mpr ⟨seg_congr (fun b member => ?_) front_, ?_, trivial⟩, ?_, trivial⟩⟩
    · rw [head, first_append, first_append, first_append]
      rfl
    · simp [last]
    · rw [length]
      simp
    · have apart : b ≠ t := by
        rintro rfl
        exact (List.nodup_append.mp distinct).2.2 b member b (List.mem_singleton_self _) rfl
      have away : b ≠ a := fun same => fresh (List.mem_append_left _ (same ▸ member))
      rw [Function.update_of_ne apart, Function.update_of_ne away, Function.update_of_ne away]
    · rw [Function.update_self, Function.update_of_ne other, Function.update_of_ne other, here]
      rfl
    · rw [Function.update_of_ne other.symm, Function.update_self, Function.update_self, next, last_append]
      rfl

structure TwoLists.Hold (s : TwoLists A α) (xs ys : List (A × α)) : Prop where
  source : s.source.Holds s.memory xs
  target : s.target.Holds s.memory ys
  apart : ∀ a ∈ xs.map Prod.fst, a ∉ ys.map Prod.fst

variable {s : TwoLists A α} {select : α → Bool}

theorem move_hold (hold : s.Hold (before ++ (a, d) :: behind) others) :
    (s.move a d).Hold (before ++ behind) ((a, d) :: others) := by
  obtain ⟨from_, to_, apart⟩ := hold
  obtain ⟨left, frame⟩ := delete_holds from_
  have inside : a ∈ (before ++ (a, d) :: behind).map Prod.fst := by simp
  have fewer {b : A} (member : b ∈ (before ++ behind).map Prod.fst) : b ∈ (before ++ (a, d) :: behind).map Prod.fst := by
    rw [List.map_append, List.mem_append] at member ⊢
    exact member.imp_right (List.mem_cons_of_mem _)
  have alone : a ∉ (before ++ behind).map Prod.fst := by
    have distinct := from_.distinct
    have perm := (@List.perm_middle _ (a, d) before behind).map Prod.fst
    exact (List.nodup_cons.mp (perm.nodup_iff.mp distinct)).1
  have cleared : s.target.Holds (Function.update (lifNodeDelete a s.memory s.source).1 a {}) others := by
    refine to_.congr fun b member => ?_
    have other : b ≠ a := fun same => apart a inside (same ▸ member)
    rw [Function.update_of_ne other]
    exact frame b fun here => apart b (fewer here) member
  have clear : (Function.update (lifNodeDelete a s.memory s.source).1 a {}) a = {} := Function.update_self ..
  obtain ⟨right, frame'⟩ := insert_holds cleared (apart a inside) (congrArg Node.prev clear) (congrArg Node.next clear)
  refine ⟨left.congr fun b member => ?_, right, fun b member => ?_⟩
  · have other : b ≠ a := fun same => alone (same ▸ member)
    have away : b ∉ a :: others.map Prod.fst := fun there =>
      (List.mem_cons.mp there).elim other (apart b (fewer member))
    exact (frame' b away).trans (Function.update_of_ne other ..)
  · rintro there
    rcases List.mem_cons.mp there with same | there
    · have own : b = a := same
      exact alone (own ▸ member)
    · exact apart b (fewer member) there

/-- The loop comes to all nodes, also while they are deleted, and takes out those that are selected. -/
theorem moveNodes_hold {fuel : Nat} (enough : rest.length ≤ fuel) (hold : s.Hold (kept ++ rest) others) :
    ∃ s', moveNodes select fuel (first rest none) ((first rest none).bind fun iter => (s.memory iter).next) s = some s' ∧
      s'.Hold (kept ++ rest.filter fun node => !select node.2) ((rest.filter fun node => select node.2).reverse ++ others) := by
  induction rest generalizing fuel kept others s with
  | nil => exact ⟨s, by cases fuel <;> rfl, by simpa using hold⟩
  | cons node rest ih =>
    obtain ⟨a, d⟩ := node
    obtain ⟨fuel, rfl⟩ : ∃ n, fuel = n + 1 := ⟨fuel - 1, by rw [List.length_cons] at enough; omega⟩
    have enough : rest.length ≤ fuel := Nat.le_of_succ_le_succ enough
    have here := (seg_append.mp hold.source.seg).2.1
    have next : (first ((a, d) :: rest) none).bind (fun iter => (s.memory iter).next) = first rest none := by
      rw [first, Option.bind_some, here]
    rw [next]
    dsimp only [first]
    unfold moveNodes
    rw [here]
    dsimp only
    cases chosen : select d with
    | true =>
      rw [if_pos rfl, List.filter_cons_of_neg (by simp [chosen]), List.filter_cons_of_pos (by simp [chosen]), List.reverse_cons,
        List.append_assoc]
      exact ih enough (move_hold hold)
    | false =>
      rw [if_neg (by simp), List.filter_cons_of_pos (by simp [chosen]), List.filter_cons_of_neg (by simp [chosen])]
      have split : s.Hold ((kept ++ [(a, d)]) ++ rest) others := by rwa [List.append_assoc]
      obtain ⟨s', moved, held⟩ := ih enough split
      refine ⟨s', moved, ?_⟩
      rwa [List.append_assoc] at held

theorem foreachSafe_hold {fuel : Nat} (enough : nodes.length ≤ fuel) (hold : s.Hold nodes others) :
    ∃ s', foreachSafe select fuel s = some s' ∧
      s'.Hold (nodes.filter fun node => !select node.2) ((nodes.filter fun node => select node.2).reverse ++ others) := by
  have head := hold.source.head
  unfold foreachSafe
  rw [head]
  exact @moveNodes_hold _ _ [] nodes others _ s select fuel enough hold

end

end Ifupdown
