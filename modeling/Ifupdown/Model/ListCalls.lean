import Ifupdown.Model.Lists

/-! Programs that call the functions of list.c for a list. -/
namespace Ifupdown

open Segments

section
variable {A α : Type}

/-- A loop over the nodes that this pointer leads to, each with its data. `none` when the fuel does not last. -/
def foreachNode (follow : Node A α → Option A) (m : Memory A α) : Nat → Option A → Option (List (A × Option α))
  | _, none => some []
  | 0, some _ => none
  | fuel + 1, some iter =>
    match foreachNode follow m fuel (follow (m iter)) with
    | none => none
    | some nodes => some ((iter, (m iter).data) :: nodes)

def lifListForeach (m : Memory A α) (fuel : Nat) (head : Option A) : Option (List (A × Option α)) :=
  foreachNode Node.next m fuel head

def lifListForeachReverse (m : Memory A α) (fuel : Nat) (tail : Option A) : Option (List (A × Option α)) :=
  foreachNode Node.prev m fuel tail

/-- What a program does to a list: the three calls, and what it writes to other nodes between them, as `calloc`, `memset`
and the calls for other lists do. -/
inductive ListCall (A α : Type) where
  | insert (node : A) (data : Option α)
  | insertTail (node : A) (data : Option α)
  | delete (node : A)
  | write (node : A) (contents : Node A α)

structure ListMemory (A α : Type) where
  memory : Memory A α
  list : LifList A := {}

variable [DecidableEq A]

def ListCall.run (s : ListMemory A α) : ListCall A α → ListMemory A α
  | .insert node data =>
    let (memory, list) := lifNodeInsert node data s.memory s.list
    ⟨memory, list⟩
  | .insertTail node data =>
    let (memory, list) := lifNodeInsertTail node data s.memory s.list
    ⟨memory, list⟩
  | .delete node =>
    let (memory, list) := lifNodeDelete node s.memory s.list
    ⟨memory, list⟩
  | .write node contents => { s with memory := Function.update s.memory node contents }

def ListCall.order (nodes : List (A × Option α)) : ListCall A α → List (A × Option α)
  | .insert node data => (node, data) :: nodes
  | .insertTail node data => nodes ++ [(node, data)]
  | .delete node => nodes.filter fun entry => entry.1 ≠ node
  | .write _ _ => nodes

def ListCall.present (node : A) (before : Bool) : ListCall A α → Bool
  | .insert inserted _ => before || decide (inserted = node)
  | .insertTail inserted _ => before || decide (inserted = node)
  | .delete deleted => before && decide (deleted ≠ node)
  | .write _ _ => before

/-- Inserted nodes are zeroed, deleted nodes are members, and members are not written to. A zeroed node can itself be a
member, alone and without data, and is not inserted then. -/
def ListCall.Proper (nodes : List (A × Option α)) (m : Memory A α) : ListCall A α → Prop
  | .insert node _ => m node = {} ∧ nodes ≠ [(node, none)]
  | .insertTail node _ => m node = {} ∧ nodes ≠ [(node, none)]
  | .delete node => node ∈ nodes.map Prod.fst
  | .write node _ => node ∉ nodes.map Prod.fst

def ProperCalls : List (A × Option α) → ListMemory A α → List (ListCall A α) → Prop
  | _, _, [] => True
  | nodes, s, call :: calls => call.Proper nodes s.memory ∧ ProperCalls (call.order nodes) (call.run s) calls

end

end Ifupdown
