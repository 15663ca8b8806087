import Ifupdown.Model.ListCalls
import Ifupdown.Resolver.Nodes

/-! Lists stay well formed in both directions. -/
namespace Ifupdown

open Segments

section
variable {A α : Type} {m : Memory A α} {list : LifList A} {nodes : List (A × Option α)} {before behind : Option A} {a : A}
  {d : Option α} {fuel : Nat}

/-- The memory in which NULL is data like any other. -/
def withData (m : Memory A α) : Memory A (Option α) := fun a => ⟨(m a).prev, (m a).next, some (m a).data⟩

theorem withData_node (here : withData m a = ⟨before, behind, some d⟩) : (m a).prev = before ∧ (m a).next = behind ∧ (m a).data = d := by
  obtain ⟨prev, next, data⟩ := Node.mk.inj here
  exact ⟨prev, next, Option.some.inj data⟩

theorem foreach_next (seg : Seg (withData m) before nodes none) (enough : nodes.length ≤ fuel) :
    lifListForeach m fuel (first nodes none) = some nodes := by
  unfold lifListForeach
  induction nodes generalizing before fuel with
  | nil => cases fuel <;> rfl
  | cons node nodes ih =>
    obtain ⟨a, d⟩ := node
    obtain ⟨fuel, rfl⟩ : ∃ n, fuel = n + 1 := ⟨fuel - 1, by rw [List.length_cons] at enough; omega⟩
    obtain ⟨-, next, data⟩ := withData_node seg.1
    dsimp only [first]
    unfold foreachNode
    rw [next, data, ih seg.2 (Nat.le_of_succ_le_succ enough)]

theorem foreach_prev (seg : Seg (withData m) none nodes behind) (enough : nodes.length ≤ fuel) :
    lifListForeachReverse m fuel (last none nodes) = some nodes.reverse := by
  unfold lifListForeachReverse
  induction nodes using List.reverseRecOn generalizing behind fuel with
  | nil => cases fuel <;> rfl
  | append_singleton nodes node ih =>
    obtain ⟨a, d⟩ := node
    rw [List.length_append, List.length_singleton] at enough
    obtain ⟨fuel, rfl⟩ : ∃ n, fuel = n + 1 := ⟨fuel - 1, by omega⟩
    obtain ⟨front, here, -⟩ := seg_append.mp seg
    obtain ⟨prev, -, data⟩ := withData_node here
    rw [last_append]
    dsimp only [last]
    unfold foreachNode
    rw [prev, data, ih front (Nat.le_of_succ_le_succ enough), List.reverse_append]
    rfl

theorem zeroed_fresh (holds : list.Holds (withData m) nodes) (zeroed : m a = {}) (other : nodes ≠ [(a, none)]) :
    a ∉ nodes.map Prod.fst := by
  intro member
  obtain ⟨⟨b, d⟩, listed, same⟩ := List.mem_map.mp member
  have own : b = a := same
  subst own
  obtain ⟨front, back, rfl⟩ := List.append_of_mem listed
  obtain ⟨prev, next, data⟩ := withData_node (seg_append.mp holds.seg).2.1
  rw [zeroed] at prev next data
  refine other ?_
  have none_before : front = [] := by
    rcases @last_cases _ _ none front with ⟨-, empty⟩ | ⟨c, -, found⟩
    · exact empty
    · exact nomatch prev.trans found
  have none_behind : back = [] := by
    cases back with
    | nil => rfl
    | cons node back => exact nomatch next
  rw [none_before, none_behind, ← data]
  rfl

variable [DecidableEq A]

theorem withData_update (m : Memory A α) (a : A) (node : Node A α) :
    withData (Function.update m a node) = Function.update (withData m) a ⟨node.prev, node.next, some node.data⟩ := by
  funext b
  by_cases same : b = a
  · subst same
    simp [withData]
  · simp [withData, Function.update_of_ne same]

theorem withData_data : Function.update (withData m) a { withData m a with data := some d } =
    withData (Function.update m a { m a with data := d }) := (withData_update m a { m a with data := d }).symm

theorem withData_next {next : Option A} : Function.update (withData m) a { withData m a with next := next } =
    withData (Function.update m a { m a with next := next }) := (withData_update m a { m a with next := next }).symm

theorem withData_prev {prev : Option A} : Function.update (withData m) a { withData m a with prev := prev } =
    withData (Function.update m a { m a with prev := prev }) := (withData_update m a { m a with prev := prev }).symm

theorem withData_insert (a : A) (d : Option α) (m : Memory A α) (list : LifList A) :
    lifNodeInsert a (some d) (withData m) list = (withData (lifNodeInsert a d m list).1, (lifNodeInsert a d m list).2) := by
  unfold lifNodeInsert
  rw [withData_data]
  cases list.head with
  | none => rfl
  | some tnode =>
    dsimp only
    rw [withData_next, withData_prev]

theorem withData_insertTail (a : A) (d : Option α) (m : Memory A α) (list : LifList A) :
    lifNodeInsertTail a (some d) (withData m) list = (withData (lifNodeInsertTail a d m list).1, (lifNodeInsertTail a d m list).2) := by
  unfold lifNodeInsertTail
  rw [withData_data]
  cases list.tail with
  | none => rfl
  | some tnode =>
    dsimp only
    rw [withData_prev, withData_next]

theorem withData_setNext (at_ next : Option A) : setNext (withData m) at_ next = withData (setNext m at_ next) := by
  cases at_ with
  | none => rfl
  | some a => exact withData_next

theorem withData_setPrev (at_ prev : Option A) : setPrev (withData m) at_ prev = withData (setPrev m at_ prev) := by
  cases at_ with
  | none => rfl
  | some a => exact withData_prev

theorem withData_delete (other : (m a).prev ≠ some a) :
    lifNodeDelete a (withData m) list = (withData (lifNodeDelete a m list).1, (lifNodeDelete a m list).2) := by
  have prev : (withData m a).prev = (m a).prev := rfl
  have next : (withData m a).next = (m a).next := rfl
  rw [delete_eq other, delete_eq (m := withData m) other, prev, next, withData_setNext, withData_setPrev]

theorem filter_own {front back : List (A × Option α)} (alone : a ∉ (front ++ back).map Prod.fst) :
    (front ++ (a, d) :: back).filter (fun entry => entry.1 ≠ a) = front ++ back := by
  have others : ∀ entry ∈ front ++ back, decide (entry.1 ≠ a) = true := by
    intro entry member
    refine decide_eq_true fun same => alone ?_
    rw [← same]
    exact List.mem_map_of_mem member
  obtain ⟨others_front, others_back⟩ := List.forall_mem_append.mp others
  rw [List.filter_append, List.filter_cons_of_neg (by simp), List.filter_eq_self.mpr others_front,
    List.filter_eq_self.mpr others_back]

theorem run_holds {s : ListMemory A α} {call : ListCall A α} (holds : s.list.Holds (withData s.memory) nodes)
    (proper : call.Proper nodes s.memory) : (call.run s).list.Holds (withData (call.run s).memory) (call.order nodes) := by
  cases call with
  | insert node data =>
    obtain ⟨zeroed, other⟩ := proper
    have prev : (withData s.memory node).prev = none := congrArg Node.prev zeroed
    have next : (withData s.memory node).next = none := congrArg Node.next zeroed
    have inserted := (@insert_holds _ _ _ _ _ data _ _ holds (zeroed_fresh holds zeroed other) prev next).1
    rw [withData_insert] at inserted
    exact inserted
  | insertTail node data =>
    obtain ⟨zeroed, other⟩ := proper
    have prev : (withData s.memory node).prev = none := congrArg Node.prev zeroed
    have next : (withData s.memory node).next = none := congrArg Node.next zeroed
    have inserted := @insertTail_holds _ _ _ _ _ data _ _ holds (zeroed_fresh holds zeroed other) prev next
    rw [withData_insertTail] at inserted
    exact inserted
  | delete node =>
    obtain ⟨⟨a, d⟩, listed, same⟩ := List.mem_map.mp proper
    have own : a = node := same
    subst own
    obtain ⟨front, back, rfl⟩ := List.append_of_mem listed
    have perm := (@List.perm_middle _ (a, d) front back).map Prod.fst
    have alone : a ∉ (front ++ back).map Prod.fst := (List.nodup_cons.mp (perm.nodup_iff.mp holds.distinct)).1
    have absent : a ∉ front.map Prod.fst := fun member => alone (by rw [List.map_append]; exact List.mem_append_left _ member)
    have other : (s.memory a).prev ≠ some a := by
      rw [(withData_node (seg_append.mp holds.seg).2.1).1]
      exact last_ne absent
    have deleted := (delete_holds holds).1
    rw [withData_delete other] at deleted
    dsimp only [ListCall.order]
    rw [filter_own alone]
    exact deleted
  | write node contents =>
    refine holds.congr fun b member => ?_
    have other : b ≠ node := fun same => proper (same ▸ member)
    have kept : Function.update s.memory node contents b = s.memory b := Function.update_of_ne other ..
    exact congrArg (fun contents => (⟨contents.prev, contents.next, some contents.data⟩ : Node A (Option α))) kept

theorem runs_hold {s : ListMemory A α} {calls : List (ListCall A α)} (holds : s.list.Holds (withData s.memory) nodes)
    (proper : ProperCalls nodes s calls) :
    (calls.foldl ListCall.run s).list.Holds (withData (calls.foldl ListCall.run s).memory) (calls.foldl ListCall.order nodes) := by
  induction calls generalizing s nodes with
  | nil => exact holds
  | cons call calls ih => exact ih (run_holds holds proper.1) proper.2

/-- The order has the nodes that were inserted and not deleted behind that. -/
theorem order_present {present : Bool} (calls : List (ListCall A α)) (a : A) (start : a ∈ nodes.map Prod.fst ↔ present = true) :
    a ∈ (calls.foldl ListCall.order nodes).map Prod.fst ↔ calls.foldl (ListCall.present a) present = true := by
  induction calls generalizing nodes present with
  | nil => exact start
  | cons call calls ih =>
    refine ih ?_
    cases call with
    | insert node data =>
      have same : a = node ↔ node = a := eq_comm
      simp only [ListCall.order, ListCall.present, List.map_cons, List.mem_cons, start, Bool.or_eq_true, decide_eq_true_eq, same,
        or_comm]
    | insertTail node data =>
      have same : a = node ↔ node = a := eq_comm
      simp only [ListCall.order, ListCall.present, List.map_append, List.mem_append, List.map_cons, List.map_nil,
        List.mem_singleton, start, Bool.or_eq_true, decide_eq_true_eq, same]
    | delete node =>
      dsimp only [ListCall.order, ListCall.present]
      rw [Bool.and_eq_true, decide_eq_true_eq, ← start]
      constructor
      · intro member
        obtain ⟨entry, kept, rfl⟩ := List.mem_map.mp member
        obtain ⟨listed, other⟩ := List.mem_filter.mp kept
        exact ⟨List.mem_map_of_mem listed, fun same => of_decide_eq_true other same.symm⟩
      · rintro ⟨member, other⟩
        obtain ⟨entry, listed, rfl⟩ := List.mem_map.mp member
        exact List.mem_map_of_mem (List.mem_filter.mpr ⟨listed, decide_eq_true fun same => other same.symm⟩)
    | write node contents => exact start

end

/-- Behind any calls for a list that is empty at first, the loops from its head and from its tail come to the same nodes in
opposite orders. These are the nodes that were inserted and not deleted since, in the order that the calls imply, and the
length is their number. -/
theorem list_enumerated {A α : Type} [DecidableEq A] (m : Memory A α) {calls : List (ListCall A α)} (proper : ProperCalls [] ⟨m, {}⟩ calls) :
    let s := calls.foldl ListCall.run ⟨m, {}⟩
    let nodes := calls.foldl ListCall.order []
    (∀ fuel, nodes.length ≤ fuel →
      lifListForeach s.memory fuel s.list.head = some nodes ∧ lifListForeachReverse s.memory fuel s.list.tail = some nodes.reverse) ∧
    (nodes.map Prod.fst).Nodup ∧
    (∀ a, a ∈ nodes.map Prod.fst ↔ calls.foldl (ListCall.present a) false = true) ∧
    s.list.length = nodes.length := by
  have holds := runs_hold (holds_empty (withData m)) proper
  refine ⟨fun fuel enough => ?_, holds.distinct, fun a => order_present calls a (by simp), holds.length⟩
  rw [holds.head, holds.tail]
  exact ⟨foreach_next holds.seg enough, foreach_prev holds.seg enough⟩

/-- Both kinds of insertion into an empty list, in front and behind, and the deletion of a node in the middle, which is
zeroed and inserted anew. -/
def someCalls : List (ListCall Nat Nat) :=
  [.insert 1 (some 10), .insert 2 none, .insertTail 3 (some 30), .delete 1, .write 1 {}, .insertTail 1 (some 11)]

theorem list_enumerated_some :
    let s := someCalls.foldl ListCall.run ⟨fun _ => {}, {}⟩
    let nodes := someCalls.foldl ListCall.order []
    (∀ fuel, nodes.length ≤ fuel →
      lifListForeach s.memory fuel s.list.head = some nodes ∧ lifListForeachReverse s.memory fuel s.list.tail = some nodes.reverse) ∧
    (nodes.map Prod.fst).Nodup ∧
    (∀ a, a ∈ nodes.map Prod.fst ↔ someCalls.foldl (ListCall.present a) false = true) ∧
    s.list.length = nodes.length :=
  list_enumerated _ (by simp [someCalls, ProperCalls, ListCall.Proper, ListCall.order, ListCall.run, lifNodeInsert])

example : someCalls.foldl ListCall.order [] = [(2, none), (3, some 30), (1, some 11)] := by decide

end Ifupdown
