import Ifupdown.Model.DictMemory
import Ifupdown.Resolver.Nodes

/-! Which blocks a dictionary has in memory, and what allocation and release do to the others. -/
namespace Ifupdown

open Segments

section
variable {A α : Type} {own : List (A × A)} {a : A}

def entryNodes (own : List (A × A)) : List (A × Target A α) := own.map fun entry => (entry.1, .entry entry.1)

def ownBlocks (own : List (A × A)) : List A := own.flatMap fun entry => [entry.1, entry.2]

@[simp] theorem entryNodes_addresses : (entryNodes own : List (A × Target A α)).map Prod.fst = own.map Prod.fst := by
  simp [entryNodes]

theorem mem_ownBlocks : a ∈ ownBlocks own ↔ ∃ entry ∈ own, a = entry.1 ∨ a = entry.2 := by
  simp [ownBlocks]

theorem entry_mem_ownBlocks (member : a ∈ own.map Prod.fst) : a ∈ ownBlocks own := by
  obtain ⟨entry, listed, rfl⟩ := List.mem_map.mp member
  exact mem_ownBlocks.mpr ⟨entry, listed, Or.inl rfl⟩

@[simp] theorem ownBlocks_append (front back : List (A × A)) : ownBlocks (front ++ back) = ownBlocks front ++ ownBlocks back :=
  List.flatMap_append

end

section
variable {A α : Type} [Inhabited α] {h h' : Heap A α} {list : LifList A} {dict kept : LifDict α} {own : List (A × A)}
  {others others' : List A} {entry : A × A} {item : Str × α} {a b : A} {before : Option A}

structure EntryAt (h : Heap A α) (entry : A × A) (item : Str × α) : Prop where
  key : (h.blocks entry.1).key = some entry.2
  data : (h.blocks entry.1).data = item.2
  text : (h.blocks entry.2).text = item.1

/-- The list in memory has the entries of this dictionary, and no block is shared or lost. -/
structure Represents (h : Heap A α) (list : LifList A) (dict : LifDict α) (own : List (A × A)) (others : List A) : Prop where
  holds : list.Holds h.nodes (entryNodes own)
  entries : List.Forall₂ (EntryAt h) own dict
  live : h.live.Perm (ownBlocks own ++ others)
  distinct : h.live.Nodup

theorem entryAt_congr (own_ : h'.blocks entry.1 = h.blocks entry.1) (text : h'.blocks entry.2 = h.blocks entry.2)
    (at_ : EntryAt h entry item) : EntryAt h' entry item := by
  obtain ⟨key, data, name⟩ := at_
  exact ⟨own_ ▸ key, own_ ▸ data, text ▸ name⟩

theorem entriesAt_congr (same : ∀ a ∈ ownBlocks own, h'.blocks a = h.blocks a) (entries : List.Forall₂ (EntryAt h) own dict) :
    List.Forall₂ (EntryAt h') own dict := by
  induction entries with
  | nil => exact List.Forall₂.nil
  | @cons entry item own dict at_ _ ih =>
    refine List.Forall₂.cons (entryAt_congr (same _ ?_) (same _ ?_) at_) (ih fun a member => same a ?_)
    · exact mem_ownBlocks.mpr ⟨entry, List.mem_cons_self, Or.inl rfl⟩
    · exact mem_ownBlocks.mpr ⟨entry, List.mem_cons_self, Or.inr rfl⟩
    · obtain ⟨other, member, which⟩ := mem_ownBlocks.mp member
      exact mem_ownBlocks.mpr ⟨other, List.mem_cons_of_mem _ member, which⟩

/-- What happens elsewhere does not matter. -/
theorem Represents.frame (rep : Represents h list dict own others) (same : ∀ a ∈ ownBlocks own, h'.blocks a = h.blocks a)
    (live : h'.live.Perm (ownBlocks own ++ others')) (distinct : h'.live.Nodup) : Represents h' list dict own others' := by
  refine ⟨rep.holds.congr fun a member => ?_, entriesAt_congr same rep.entries, live, distinct⟩
  rw [entryNodes_addresses] at member
  exact congrArg HeapBlock.node (same a (entry_mem_ownBlocks member))

theorem Represents.apart (rep : Represents h list dict own others) (member : a ∈ ownBlocks own) : a ∉ others := by
  have distinct := rep.live.nodup_iff.mp rep.distinct
  exact fun other => (List.nodup_append.mp distinct).2.2 a member a other rfl

theorem Represents.own_live (rep : Represents h list dict own others) (member : a ∈ ownBlocks own) : a ∈ h.live :=
  rep.live.mem_iff.mpr (List.mem_append_left _ member)

theorem Represents.other_live (rep : Represents h list dict own others) (member : a ∈ others) : a ∈ h.live :=
  rep.live.mem_iff.mpr (List.mem_append_right _ member)

theorem visit_entry {own : List (A × A)} (seg : Seg h.nodes before (entryNodes (entry :: own)) none) (at_ : EntryAt h entry item) :
    h.entryOf entry.1 = some entry.1 ∧ h.keyOf entry.1 = some item.1 ∧
      (h.blocks entry.1).node.next = first (entryNodes own : List (A × Target A α)) none := by
  have here : (h.blocks entry.1).node = ⟨before, first (entryNodes own) none, some (.entry entry.1)⟩ := seg.1
  refine ⟨?_, ?_, by rw [here]⟩
  · unfold Heap.entryOf
    rw [here]
  · unfold Heap.keyOf
    rw [at_.key, Option.map_some, at_.text]

@[simp] theorem setNodes_live (nodes : Memory A (Target A α)) : (h.setNodes nodes).live = h.live := rfl

@[simp] theorem setNodes_nodes (nodes : Memory A (Target A α)) : (h.setNodes nodes).nodes = nodes := rfl

theorem setNodes_block {nodes : Memory A (Target A α)} (same : nodes a = h.nodes a) : (h.setNodes nodes).blocks a = h.blocks a := by
  unfold Heap.setNodes
  dsimp only
  rw [same]
  rfl

theorem entryAt_setNodes {nodes : Memory A (Target A α)} (at_ : EntryAt h entry item) : EntryAt (h.setNodes nodes) entry item :=
  ⟨at_.key, at_.data, at_.text⟩

variable [DecidableEq A] {c : Allocator A α}

@[simp] theorem store_live (block : HeapBlock A α) : (h.store a block).live = h.live := rfl

@[simp] theorem store_self (block : HeapBlock A α) : (h.store a block).blocks a = block := Function.update_self ..

theorem store_other (block : HeapBlock A α) (other : b ≠ a) : (h.store a block).blocks b = h.blocks b := Function.update_of_ne other ..

theorem calloc_block : (h.calloc c).2.blocks (h.calloc c).1 = {} := Function.update_self ..

theorem calloc_other (live : b ∈ h.live) : (h.calloc c).2.blocks b = h.blocks b := by
  have other : b ≠ c.fresh h := fun same => c.unused h (same ▸ live)
  exact store_other _ other

theorem calloc_fresh : (h.calloc c).1 ∉ h.live := c.unused h

theorem strdup_text {text : Str} : ((h.strdup c text).2.blocks (h.strdup c text).1).text = text := by
  simp [Heap.strdup, Heap.store]

theorem strdup_other {text : Str} (live : b ∈ h.live) : (h.strdup c text).2.blocks b = h.blocks b := by
  have other : b ≠ c.fresh h := fun same => c.unused h (same ▸ live)
  exact store_other _ other

theorem strdup_fresh {text : Str} : (h.strdup c text).1 ∉ h.live := c.unused h

theorem free_block {rest : List A} (live : h.live.Perm (a :: rest)) (distinct : h.live.Nodup) :
    ∃ h', h.free c (some a) = some h' ∧ h'.live.Perm rest ∧ h'.live.Nodup ∧ ∀ b ∈ rest, h'.blocks b = h.blocks b := by
  have member : a ∈ h.live := live.mem_iff.mpr List.mem_cons_self
  obtain ⟨fresh, -⟩ := List.nodup_cons.mp (live.nodup_iff.mp distinct)
  refine ⟨_, if_pos member, ?_, distinct.erase a, fun b other => ?_⟩
  · have erased := live.erase a
    rwa [List.erase_cons_head] at erased
  · have away : b ≠ a := fun same => fresh (same ▸ other)
    exact store_other _ away

/-- The nodes of a list are freed one by one, each after the next one has been read. -/
theorem freeNodes_all {nodes : List (A × Target A α)} {rest : List A} {fuel : Nat} (enough : nodes.length ≤ fuel)
    (seg : Seg h.nodes before nodes none) (live : h.live.Perm (nodes.map Prod.fst ++ rest)) (distinct : h.live.Nodup) :
    ∃ h', Heap.freeNodes c fuel (first nodes none) ((first nodes none).bind fun iter => (h.blocks iter).node.next) h = some h' ∧
      h'.live.Perm rest ∧ h'.live.Nodup ∧ ∀ b ∈ rest, h'.blocks b = h.blocks b := by
  induction nodes generalizing h before fuel with
  | nil => exact ⟨h, by cases fuel <;> rfl, live, distinct, fun _ _ => rfl⟩
  | cons node nodes ih =>
    obtain ⟨a, target⟩ := node
    obtain ⟨fuel, rfl⟩ : ∃ n, fuel = n + 1 := ⟨fuel - 1, by rw [List.length_cons] at enough; omega⟩
    have here : (h.blocks a).node = ⟨before, first nodes none, some target⟩ := seg.1
    have next : (first ((a, target) :: nodes) none).bind (fun iter => (h.blocks iter).node.next) = first nodes none := by
      rw [first, Option.bind_some, here]
    obtain ⟨h₁, freed, live₁, distinct₁, same₁⟩ := free_block (c := c) live distinct
    have seg₁ : Seg h₁.nodes (some a) nodes none := by
      refine seg_congr (fun b member => ?_) seg.2
      exact congrArg HeapBlock.node (same₁ b (List.mem_append_left _ member))
    obtain ⟨h₂, rest₂, live₂, distinct₂, same₂⟩ := ih (Nat.le_of_succ_le_succ enough) seg₁ live₁ distinct₁
    refine ⟨h₂, ?_, live₂, distinct₂, fun b member => (same₂ b member).trans (same₁ b (List.mem_append_right _ member))⟩
    rw [next]
    dsimp only [first]
    unfold Heap.freeNodes
    rw [freed]
    exact rest₂

end

end Ifupdown
