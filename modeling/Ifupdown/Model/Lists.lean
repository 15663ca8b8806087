import Mathlib.Algebra.Group.Nat.Defs
import Ifupdown.Base.Segments
import Ifupdown.Model.Rdepends

/-! The linked lists of list.c, and the second half of `lif_lifecycle_count_rdepends` on them. -/
namespace Ifupdown

open Segments

structure LifList (A : Type) where
  head : Option A := none
  tail : Option A := none
  length : Nat := 0

section
variable {A α : Type} [DecidableEq A]

def lifNodeInsert (node : A) (data : Option α) (m : Memory A α) (list : LifList A) : Memory A α × LifList A :=
  let m := Function.update m node { m node with data := data }
  match list.head with
  | none => (m, { head := some node, tail := some node, length := 1 })
  | some tnode =>
    let m := Function.update m node { m node with next := some tnode }
    let m := Function.update m tnode { m tnode with prev := some node }
    (m, { list with head := some node, length := list.length + 1 })

def lifNodeInsertTail (node : A) (data : Option α) (m : Memory A α) (list : LifList A) : Memory A α × LifList A :=
  let m := Function.update m node { m node with data := data }
  match list.tail with
  | none => (m, { head := some node, tail := some node, length := 1 })
  | some tnode =>
    let m := Function.update m node { m node with prev := some tnode }
    let m := Function.update m tnode { m tnode with next := some node }
    (m, { list with tail := some node, length := list.length + 1 })

def lifNodeDelete (node : A) (m : Memory A α) (list : LifList A) : Memory A α × LifList A :=
  let list := { list with length := list.length - 1 }
  let (m, list) :=
    match (m node).prev with
    | none => (m, { list with head := (m node).next })
    | some prev => (Function.update m prev { m prev with next := (m node).next }, list)
  match (m node).next with
  | none => (m, { list with tail := (m node).prev })
  | some next => (Function.update m next { m next with prev := (m node).prev }, list)

structure TwoLists (A α : Type) where
  memory : Memory A α
  source : LifList A
  target : LifList A

/-- What both loops do with a node: delete it, clear it, and insert it into the other list. -/
def TwoLists.move (s : TwoLists A α) (node : A) (data : α) : TwoLists A α :=
  let (m, source) := lifNodeDelete node s.memory s.source
  let m := Function.update m node {}
  let (m, target) := lifNodeInsert node (some data) m s.target
  ⟨m, source, target⟩

/-- `LIF_LIST_FOREACH_SAFE` over the source, with the nodes that are moved. `none` when the fuel does not last, or at
a node without data. -/
def moveNodes (select : α → Bool) : Nat → Option A → Option A → TwoLists A α → Option (TwoLists A α)
  | _, none, _, s => some s
  | 0, some _, _, _ => none
  | fuel + 1, some iter, iterNext, s =>
    match (s.memory iter).data with
    | none => none
    | some data =>
      let s := if select data then s.move iter data else s
      moveNodes select fuel iterNext (iterNext.bind fun iter => (s.memory iter).next) s

def foreachSafe (select : α → Bool) (fuel : Nat) (s : TwoLists A α) : Option (TwoLists A α) :=
  moveNodes select fuel s.source.head (s.source.head.bind fun iter => (s.memory iter).next) s

abbrev EntryMemory (A : Type) := Memory A (Str × LifInterface)

def maxDepthNodes (m : EntryMemory A) : Nat → Option A → Nat → Option Nat
  | _, none, maxdepth => some maxdepth
  | 0, some _, _ => none
  | fuel + 1, some iter, maxdepth =>
    match (m iter).data with
    | none => none
    | some (_, iface) =>
      maxDepthNodes m fuel (m iter).next (if iface.rdependsCount > maxdepth then iface.rdependsCount else maxdepth)

/-- A `size_t` of 64 bits as `ssize_t`. -/
def ssize (n : Nat) : Int := (n : Int).bmod (2 ^ 64)

/-- The passes from `curdepth` down to 0. `rounds` bounds their number. -/
def readdNodes (fuel : Nat) : Nat → Int → TwoLists A (Str × LifInterface) → Option (TwoLists A (Str × LifInterface))
  | rounds, curdepth, s =>
    if curdepth > -1 then
      match rounds with
      | 0 => none
      | rounds + 1 =>
        match foreachSafe (fun entry => ssize entry.2.rdependsCount = curdepth) fuel s with
        | none => none
        | some s => readdNodes fuel rounds (curdepth - 1) s
    else some s

/-- The second half of the function: the maximal depth, and the memory and the list that it leaves. -/
def reorderNodes (fuel : Nat) (m : EntryMemory A) (list : LifList A) : Option (Nat × EntryMemory A × LifList A) :=
  match maxDepthNodes m fuel list.head 0 with
  | none => none
  | some maxdepth =>
    match foreachSafe (fun _ => true) fuel ⟨m, list, {}⟩ with
    | none => none
    | some s =>
      match readdNodes fuel fuel (ssize maxdepth) ⟨s.memory, s.target, s.source⟩ with
      | none => none
      | some s => some (maxdepth, s.memory, s.target)

end

end Ifupdown
