import Ifupdown.Base.Dict
import Ifupdown.Model.Lists

/-! The dictionaries of dict.c as the linked lists in allocated memory that they are. -/
namespace Ifupdown

open Segments

/-- What the data pointer of a node leads to: the entry that the node is part of, or what the user stores. -/
inductive Target (A α : Type) where
  | entry (address : A)
  | data (data : α)

/-- What is read at an address, as each of the types that are allocated. A node is the first member of its entry.
The pointers that users store have the values `α`, NULL being the default. -/
structure HeapBlock (A α : Type) [Inhabited α] where
  node : Node A (Target A α) := {}
  key : Option A := none
  data : α := default
  list : LifList A := {}
  text : Str := []

structure Heap (A α : Type) [Inhabited α] where
  blocks : A → HeapBlock A α
  live : List A

/-- Where the next block is, and what is left behind at one that has been freed. -/
structure Allocator (A α : Type) [Inhabited α] where
  fresh : Heap A α → A
  unused : ∀ h, fresh h ∉ h.live
  scrap : Heap A α → A → HeapBlock A α

section
variable {A α : Type} [Inhabited α] [DecidableEq A] (c : Allocator A α)

def Heap.nodes (h : Heap A α) : Memory A (Target A α) := fun a => (h.blocks a).node

def Heap.setNodes (h : Heap A α) (nodes : Memory A (Target A α)) : Heap A α :=
  { h with blocks := fun a => { h.blocks a with node := nodes a } }

def Heap.store (h : Heap A α) (a : A) (block : HeapBlock A α) : Heap A α :=
  { h with blocks := Function.update h.blocks a block }

def Heap.calloc (h : Heap A α) : A × Heap A α :=
  let a := c.fresh h
  (a, { h.store a {} with live := a :: h.live })

def Heap.strdup (h : Heap A α) (text : Str) : A × Heap A α :=
  let a := c.fresh h
  (a, { h.store a { h.blocks a with text := text } with live := a :: h.live })

def Heap.free (h : Heap A α) : Option A → Option (Heap A α)
  | none => some h
  | some a => if a ∈ h.live then some { h.store a (c.scrap h a) with live := h.live.erase a } else none

def Heap.entryOf (h : Heap A α) (iter : A) : Option A :=
  match (h.blocks iter).node.data with
  | some (.entry entry) => some entry
  | _ => none

def Heap.dataOf (h : Heap A α) (iter : A) : Option α :=
  match (h.blocks iter).node.data with
  | some (.data data) => some data
  | _ => none

def Heap.keyOf (h : Heap A α) (entry : A) : Option Str := (h.blocks entry).key.map fun a => (h.blocks a).text

def Heap.freeNodes : Nat → Option A → Option A → Heap A α → Option (Heap A α)
  | _, none, _, h => some h
  | 0, some _, _, _ => none
  | fuel + 1, some iter, iterNext, h => do
    let h ← h.free c (some iter)
    Heap.freeNodes fuel iterNext (iterNext.bind fun iter => (h.blocks iter).node.next) h

def Heap.lifListFreeNodes (fuel : Nat) (h : Heap A α) : Option A → Option (Heap A α)
  | none => some h
  | some list => do
    let head := (h.blocks list).list.head
    let h ← Heap.freeNodes c fuel head (head.bind fun iter => (h.blocks iter).node.next) h
    h.free c (some list)

def Heap.lifDictAdd (h : Heap A α) (dict : LifList A) (key : Str) (data : α) : A × Heap A α × LifList A :=
  let (entry, h) := h.calloc c
  let (text, h) := h.strdup c key
  let h := h.store entry { h.blocks entry with key := some text, data := data }
  let (nodes, dict) := lifNodeInsertTail entry (some (.entry entry)) h.nodes dict
  (entry, h.setNodes nodes, dict)

/-- The loop of `lif_dict_find`. `none` when the fuel does not last, or at a node that is none of an entry. -/
def Heap.findNodes (h : Heap A α) (key : Str) : Nat → Option A → Option (Option A)
  | _, none => some none
  | 0, some _ => none
  | fuel + 1, some iter => do
    let entry ← h.entryOf iter
    let name ← h.keyOf entry
    if name = key then some (some entry) else h.findNodes key fuel (h.blocks iter).node.next

def Heap.lifDictFind (fuel : Nat) (h : Heap A α) (dict : LifList A) (key : Str) : Option (Option A) :=
  h.findNodes key fuel dict.head

def Heap.appendData (h : Heap A α) (entries : A) (data : α) : Heap A α :=
  let (new, h) := h.calloc c
  let (nodes, list) := lifNodeInsertTail new (some (.data data)) h.nodes (h.blocks entries).list
  let h := h.setNodes nodes
  h.store entries { h.blocks entries with list := list }

def Heap.findAllNodes (key : Str) (entries : A) : Nat → Option A → Heap A α → Option (Heap A α)
  | _, none, h => some h
  | 0, some _, _ => none
  | fuel + 1, some iter, h => do
    let entry ← h.entryOf iter
    let name ← h.keyOf entry
    let h := if name = key then h.appendData c entries (h.blocks entry).data else h
    Heap.findAllNodes key entries fuel (h.blocks iter).node.next h

def Heap.lifDictFindAll (fuel : Nat) (h : Heap A α) (dict : LifList A) (key : Str) : Option (Option A × Heap A α) := do
  let (entries, h) := h.calloc c
  let h ← Heap.findAllNodes c key entries fuel dict.head h
  if (h.blocks entries).list.length = 0 then
    let h ← h.free c (some entries)
    some (none, h)
  else some (some entries, h)

def Heap.comparedNodes (h : Heap A α) (compar : α → α → Int) (data : α) : Nat → Option A → Option Bool
  | _, none => some false
  | 0, some _ => none
  | fuel + 1, some iter => do
    let other ← h.dataOf iter
    if compar data other = 0 then some true else h.comparedNodes compar data fuel (h.blocks iter).node.next

def Heap.searchExisting (compar : α → α → Int) (fuel : Nat) (h : Heap A α) (data : α) : Option A → Option (Bool × Heap A α)
  | none => some (false, h)
  | some existing => do
    let found ← h.comparedNodes compar data fuel (h.blocks existing).list.head
    let h ← h.lifListFreeNodes c fuel (some existing)
    some (found, h)

def Heap.lifDictAddOnce (compar : α → α → Int) (fuel : Nat) (h : Heap A α) (dict : LifList A) (key : Str) (data : α) :
    Option (Option A × Heap A α × LifList A) := do
  let (existing, h) ← h.lifDictFindAll c fuel dict key
  let (found, h) ← h.searchExisting c compar fuel data existing
  if found then some (none, h, dict)
  else
    let (entry, h, dict) := h.lifDictAdd c dict key data
    some (some entry, h, dict)

def Heap.lifDictDeleteEntry (h : Heap A α) (dict : LifList A) (entry : A) : Option (Heap A α × LifList A) := do
  let (nodes, dict) := lifNodeDelete entry h.nodes dict
  let h := h.setNodes nodes
  let h ← h.free c (h.blocks entry).key
  let h ← h.free c (some entry)
  some (h, dict)

def Heap.lifDictDelete (fuel : Nat) (h : Heap A α) (dict : LifList A) (key : Str) : Option (Heap A α × LifList A) := do
  match ← h.lifDictFind fuel dict key with
  | none => some (h, dict)
  | some entry => h.lifDictDeleteEntry c dict entry

/-- The loops with `LIF_DICT_FOREACH_SAFE` that delete entries by their key and data. -/
def Heap.deleteNodes (select : Str → α → Bool) : Nat → Option A → Option A → Heap A α → LifList A →
    Option (Heap A α × LifList A)
  | _, none, _, h, dict => some (h, dict)
  | 0, some _, _, _, _ => none
  | fuel + 1, some iter, iterNext, h, dict => do
    let entry ← h.entryOf iter
    let name ← h.keyOf entry
    let (h, dict) ← if select name (h.blocks entry).data then h.lifDictDeleteEntry c dict entry else some (h, dict)
    Heap.deleteNodes select fuel iterNext (iterNext.bind fun iter => (h.blocks iter).node.next) h dict

def Heap.deleteEach (select : Str → α → Bool) (fuel : Nat) (h : Heap A α) (dict : LifList A) : Option (Heap A α × LifList A) :=
  Heap.deleteNodes c select fuel dict.head (dict.head.bind fun iter => (h.blocks iter).node.next) h dict

def Heap.lifDictFini (fuel : Nat) (h : Heap A α) (dict : LifList A) : Option (Heap A α × LifList A) :=
  h.deleteEach c (fun _ _ => true) fuel dict

/-- `LIF_DICT_FOREACH` by a caller that reads each entry -/
def Heap.readEntries (h : Heap A α) : Nat → Option A → Option (List (Str × α))
  | _, none => some []
  | 0, some _ => none
  | fuel + 1, some iter => do
    let entry ← h.entryOf iter
    let name ← h.keyOf entry
    let rest ← h.readEntries fuel (h.blocks iter).node.next
    some ((name, (h.blocks entry).data) :: rest)

/-- `LIF_LIST_FOREACH` by a caller of `lif_dict_find_all` -/
def Heap.readData (h : Heap A α) : Nat → Option A → Option (List α)
  | _, none => some []
  | 0, some _ => none
  | fuel + 1, some iter => do
    let data ← h.dataOf iter
    let rest ← h.readData fuel (h.blocks iter).node.next
    some (data :: rest)

/-- What users of a dictionary call, with the loops that they write themselves. -/
inductive DictCall (α : Type) where
  | add (key : Str) (data : α)
  | addOnce (key : Str) (data : α)
  | find (key : Str)
  | findAll (key : Str)
  | delete (key : Str)
  | deleteEach (select : Str → α → Bool)
  | foreach

inductive DictAnswer (α : Type) where
  | nothing
  | entry (key : Str) (data : α)
  | values (data : List α)
  | entries (items : List (Str × α))

def Heap.readEntry (h : Heap A α) : Option A → Option (DictAnswer α)
  | none => some .nothing
  | some entry => do
    let name ← h.keyOf entry
    some (.entry name (h.blocks entry).data)

def DictCall.run (compar : α → α → Int) (fuel : Nat) (h : Heap A α) (dict : LifList A) :
    DictCall α → Option (DictAnswer α × Heap A α × LifList A)
  | .add key data => do
    let (entry, h, dict) := h.lifDictAdd c dict key data
    let answer ← h.readEntry (some entry)
    some (answer, h, dict)
  | .addOnce key data => do
    let (entry, h, dict) ← h.lifDictAddOnce c compar fuel dict key data
    let answer ← h.readEntry entry
    some (answer, h, dict)
  | .find key => do
    let entry ← h.lifDictFind fuel dict key
    let answer ← h.readEntry entry
    some (answer, h, dict)
  | .findAll key => do
    match ← h.lifDictFindAll c fuel dict key with
    | (none, h) => some (.nothing, h, dict)
    | (some entries, h) =>
      let data ← h.readData fuel (h.blocks entries).list.head
      let h ← h.lifListFreeNodes c fuel (some entries)
      some (.values data, h, dict)
  | .delete key => do
    let (h, dict) ← h.lifDictDelete c fuel dict key
    some (.nothing, h, dict)
  | .deleteEach select => do
    let (h, dict) ← h.deleteEach c select fuel dict
    some (.nothing, h, dict)
  | .foreach => do
    let items ← h.readEntries fuel dict.head
    some (.entries items, h, dict)

def runDictCalls (compar : α → α → Int) (fuel : Nat) : Heap A α → LifList A → List (DictCall α) →
    Option (List (DictAnswer α) × Heap A α × LifList A)
  | h, dict, [] => some ([], h, dict)
  | h, dict, call :: calls => do
    let (answer, h, dict) ← call.run c compar fuel h dict
    let (answers, h, dict) ← runDictCalls compar fuel h dict calls
    some (answer :: answers, h, dict)

end

end Ifupdown
