import Ifupdown.Dictionary.Blocks

/-! What each function of dict.c does to the dictionary that is represented. -/
namespace Ifupdown

open Segments

section
variable {A α : Type} [DecidableEq A] {m : Memory A α} {list : LifList A} {nodes : List (A × α)} {a b : A} {d : α}

theorem insertTail_other (holds : list.Holds m nodes) (away : b ∉ a :: nodes.map Prod.fst) :
    (lifNodeInsertTail a (some d) m list).1 b = m b := by
  obtain ⟨own, apart⟩ := not_or.mp (fun h => away (List.mem_cons.mpr h))
  unfold lifNodeInsertTail
  dsimp only
  cases tail : list.tail with
  | none => exact Function.update_of_ne own ..
  | some t =>
    have other : b ≠ t := by
      rintro rfl
      exact last_ne apart (holds.tail.symm.trans tail)
    dsimp only
    rw [Function.update_of_ne other, Function.update_of_ne own, Function.update_of_ne own]

end

section
variable {α : Type} {passed rest : LifDict α} {key : Str} {data : α}

theorem lifDictFind_passed (first : key ∉ lifDictKeys passed) : lifDictFind (passed ++ (key, data) :: rest) key = some data := by
  rw [lifDictFind_head, dataAt_append, dataAt_cons, if_pos rfl]
  have none_ : dataAt passed key = [] := by
    rw [← List.head?_eq_none_iff, ← lifDictFind_head]
    exact lifDictFind_none.mpr first
  rw [none_]
  rfl

theorem lifDictDelete_passed (first : key ∉ lifDictKeys passed) :
    lifDictDelete (passed ++ (key, data) :: rest) key = passed ++ rest := by
  induction passed with
  | nil => exact if_pos rfl
  | cons item passed ih =>
    obtain ⟨other, first⟩ := not_or.mp (fun h => first (List.mem_cons.mpr h))
    rw [List.cons_append, lifDictDelete, if_neg (Ne.symm other), ih first]
    rfl

end

section
variable {A α : Type} [Inhabited α] [DecidableEq A] {c : Allocator A α} {h : Heap A α} {list : LifList A} {dict : LifDict α}
  {own : List (A × A)} {others : List A} {key : Str} {data : α} {fuel : Nat} {before : Option A}

theorem lifDictAdd_allocates (h : Heap A α) (list : LifList A) (key : Str) (data : α) :
    ∃ (entry text : A) (h' : Heap A α), h.lifDictAdd c list key data =
        (entry, h'.setNodes (lifNodeInsertTail entry (some (.entry entry)) h'.nodes list).1,
          (lifNodeInsertTail entry (some (.entry entry)) h'.nodes list).2) ∧
      entry ∉ h.live ∧ text ∉ entry :: h.live ∧ h'.live = text :: entry :: h.live ∧
      h'.blocks entry = { key := some text, data := data } ∧ (h'.blocks text).text = key ∧
      ∀ b ∈ h.live, h'.blocks b = h.blocks b := by
  have fresh : ((h.calloc c).2.strdup c key).1 ∉ (h.calloc c).1 :: h.live := strdup_fresh
  have apart : ((h.calloc c).2.strdup c key).1 ≠ (h.calloc c).1 := fun same => fresh (List.mem_cons.mpr (Or.inl same))
  have kept : ((h.calloc c).2.strdup c key).2.blocks (h.calloc c).1 = {} := (strdup_other List.mem_cons_self).trans calloc_block
  let h₂ := ((h.calloc c).2.strdup c key).2
  let block : HeapBlock A α := { h₂.blocks (h.calloc c).1 with key := some ((h.calloc c).2.strdup c key).1, data := data }
  refine ⟨(h.calloc c).1, ((h.calloc c).2.strdup c key).1, h₂.store (h.calloc c).1 block, rfl, calloc_fresh, fresh, rfl, ?_, ?_, fun b live => ?_⟩
  · rw [store_self]
    dsimp only [block, h₂]
    rw [kept]
  · rw [store_other _ apart]
    exact strdup_text
  · have other : b ≠ (h.calloc c).1 := fun same => calloc_fresh (same ▸ live)
    exact (store_other _ other).trans ((strdup_other (List.mem_cons_of_mem _ live)).trans (calloc_other live))

/-- Insertion at the tail changes no more of the other entries than a link. -/
theorem add_represents (key : Str) (data : α) (rep : Represents h list dict own others) :
    ∃ entry text h' list', h.lifDictAdd c list key data = (entry, h', list') ∧
      Represents h' list' (lifDictAdd dict key data) (own ++ [(entry, text)]) others ∧ EntryAt h' (entry, text) (key, data) ∧
      ∀ b ∈ others, h'.blocks b = h.blocks b := by
  obtain ⟨entry, text, h₁, added, fresh, freshText, live, new, named, same⟩ := @lifDictAdd_allocates _ _ _ _ c h list key data
  have rep₁ : Represents h₁ list dict own (text :: entry :: others) := by
    refine rep.frame (fun a member => same a (rep.own_live member)) ?_ ?_
    · rw [live]
      exact ((rep.live.cons entry).cons text).trans (List.perm_append_comm_assoc [text, entry] (ownBlocks own) others)
    · rw [live]
      exact List.nodup_cons.mpr ⟨freshText, List.nodup_cons.mpr ⟨fresh, rep.distinct⟩⟩
  have node : h₁.nodes entry = {} := congrArg HeapBlock.node new
  have absent : entry ∉ (entryNodes own : List (A × Target A α)).map Prod.fst := by
    rw [entryNodes_addresses]
    exact fun member => fresh (rep.own_live (entry_mem_ownBlocks member))
  have linked := @insertTail_holds _ _ _ _ _ (.entry entry) _ _ rep₁.holds absent (by rw [node]) (by rw [node])
  have at_ : EntryAt h₁ (entry, text) (key, data) := ⟨by rw [new], by rw [new], named⟩
  refine ⟨entry, text, _, _, added, ⟨?_, ?_, ?_, rep₁.distinct⟩, entryAt_setNodes at_, fun b member => ?_⟩
  · rw [setNodes_nodes, entryNodes, List.map_append]
    exact linked
  · exact List.rel_append (rep₁.entries.imp fun _ _ => entryAt_setNodes) (List.Forall₂.cons (entryAt_setNodes at_) List.Forall₂.nil)
  · rw [ownBlocks_append, List.append_assoc]
    exact rep₁.live.trans ((List.Perm.swap entry text others).append_left (ownBlocks own))
  · have known : b ∈ h.live := rep.other_live member
    have away : b ∉ entry :: (entryNodes own : List (A × Target A α)).map Prod.fst := by
      rw [entryNodes_addresses]
      refine fun inside => (List.mem_cons.mp inside).elim (fun same => fresh (same ▸ known)) fun inside => ?_
      exact rep.apart (entry_mem_ownBlocks inside) member
    exact (setNodes_block (insertTail_other rep₁.holds away)).trans (same b known)

structure Located (h : Heap A α) (dict : LifDict α) (own : List (A × A)) (key : Str) (entry : A) where
  text : A
  data : α
  front : List (A × A)
  back : List (A × A)
  passed : LifDict α
  rest : LifDict α
  addresses : own = front ++ (entry, text) :: back
  items : dict = passed ++ (key, data) :: rest
  before : List.Forall₂ (EntryAt h) front passed
  here : EntryAt h (entry, text) (key, data)
  behind : List.Forall₂ (EntryAt h) back rest
  first : key ∉ lifDictKeys passed

omit [DecidableEq A] in
theorem findNodes_located (enough : own.length ≤ fuel) (seg : Seg h.nodes before (entryNodes own) none)
    (entries : List.Forall₂ (EntryAt h) own dict) :
    h.findNodes key fuel (first (entryNodes own : List (A × Target A α)) none) = some none ∧ key ∉ lifDictKeys dict ∨
      ∃ entry, h.findNodes key fuel (first (entryNodes own : List (A × Target A α)) none) = some (some entry) ∧
        Nonempty (Located h dict own key entry) := by
  induction entries generalizing fuel before with
  | nil => exact Or.inl ⟨by cases fuel <;> rfl, List.not_mem_nil⟩
  | @cons entry item own dict at_ entries ih =>
    obtain ⟨fuel, rfl⟩ : ∃ n, fuel = n + 1 := ⟨fuel - 1, by rw [List.length_cons] at enough; omega⟩
    obtain ⟨target, name, next⟩ := visit_entry seg at_
    have step : h.findNodes key (fuel + 1) (first (entryNodes (entry :: own) : List (A × Target A α)) none) =
        if item.1 = key then some (some entry.1) else h.findNodes key fuel (first (entryNodes own : List (A × Target A α)) none) := by
      rw [← next]
      exact (congrArg (Option.bind · _) target).trans (congrArg (Option.bind · _) name)
    rw [step]
    by_cases hit : item.1 = key
    · rw [if_pos hit]
      refine Or.inr ⟨entry.1, rfl, ⟨entry.2, item.2, [], own, [], dict, rfl, ?_, List.Forall₂.nil, ?_, entries, List.not_mem_nil⟩⟩
      · rw [← hit]
        rfl
      · rw [← hit]
        exact at_
    · rw [if_neg hit]
      rcases ih (Nat.le_of_succ_le_succ enough) seg.2 with ⟨none_, absent⟩ | ⟨found, run, ⟨there⟩⟩
      · exact Or.inl ⟨none_, fun member => (List.mem_cons.mp member).elim (fun same => hit same.symm) absent⟩
      · refine Or.inr ⟨found, run, ⟨{ there with
          front := entry :: there.front
          passed := item :: there.passed
          addresses := congrArg (entry :: ·) there.addresses
          items := congrArg (item :: ·) there.items
          before := List.Forall₂.cons at_ there.before
          first := fun member => (List.mem_cons.mp member).elim (fun same => hit same.symm) there.first }⟩⟩

omit [DecidableEq A] in
theorem find_represents (rep : Represents h list dict own others) (enough : dict.length ≤ fuel) :
    h.lifDictFind fuel list key = some none ∧ key ∉ lifDictKeys dict ∨
      ∃ entry, h.lifDictFind fuel list key = some (some entry) ∧ Nonempty (Located h dict own key entry) := by
  unfold Heap.lifDictFind
  rw [rep.holds.head]
  exact findNodes_located (rep.entries.length_eq ▸ enough) rep.holds.seg rep.entries

/-- What is deleted takes its blocks along, and the other entries stay. -/
theorem deleteEntry_represents {front back : List (A × A)} {passed rest : LifDict α} {entry : A × A} {item : Str × α}
    (rep : Represents h list dict (front ++ entry :: back) others) (before : List.Forall₂ (EntryAt h) front passed)
    (at_ : EntryAt h entry item) (behind : List.Forall₂ (EntryAt h) back rest) :
    ∃ h' list', h.lifDictDeleteEntry c list entry.1 = some (h', list') ∧
      Represents h' list' (passed ++ rest) (front ++ back) others ∧ List.Forall₂ (EntryAt h') front passed ∧
      List.Forall₂ (EntryAt h') back rest ∧ ∀ b ∈ others, h'.blocks b = h.blocks b := by
  have holds := rep.holds
  rw [entryNodes, List.map_append, List.map_cons] at holds
  obtain ⟨linked, same⟩ := delete_holds holds
  generalize deleted : lifNodeDelete entry.1 h.nodes list = after at linked same
  obtain ⟨nodes, list'⟩ := after
  dsimp only at linked same
  let h₁ := h.setNodes nodes
  have live : h₁.live.Perm (entry.2 :: entry.1 :: (ownBlocks (front ++ back) ++ others)) := by
    refine rep.live.trans ?_
    rw [ownBlocks_append, ownBlocks_append, List.append_assoc, List.append_assoc]
    refine (List.perm_append_comm_assoc (ownBlocks front) [entry.1, entry.2] (ownBlocks back ++ others)).trans ?_
    exact List.Perm.swap entry.2 entry.1 _
  obtain ⟨h₂, freed₂, live₂, distinct₂, same₂⟩ := free_block (c := c) live rep.distinct
  obtain ⟨h₃, freed₃, live₃, distinct₃, same₃⟩ := free_block (c := c) live₂ distinct₂
  have kept {b : A} (member : b ∈ ownBlocks (front ++ back) ++ others) : h₃.blocks b = h₁.blocks b :=
    (same₃ b member).trans (same₂ b (List.mem_cons_of_mem _ member))
  have entriesAt {own : List (A × A)} {items : LifDict α} (inside : ∀ b ∈ ownBlocks own, b ∈ ownBlocks (front ++ back))
      (entries : List.Forall₂ (EntryAt h) own items) : List.Forall₂ (EntryAt h₃) own items := by
    refine entriesAt_congr (fun b member => kept (List.mem_append_left _ (inside b member))) ?_
    exact entries.imp fun _ _ => entryAt_setNodes
  have before₃ : List.Forall₂ (EntryAt h₃) front passed := by
    refine entriesAt (fun b member => ?_) before
    rw [ownBlocks_append]
    exact List.mem_append_left _ member
  have behind₃ : List.Forall₂ (EntryAt h₃) back rest := by
    refine entriesAt (fun b member => ?_) behind
    rw [ownBlocks_append]
    exact List.mem_append_right _ member
  refine ⟨h₃, list', ?_, ⟨?_, List.rel_append before₃ behind₃, live₃, distinct₃⟩, before₃, behind₃, fun b member => ?_⟩
  · have step : h.lifDictDeleteEntry c list entry.1 = (((h.setNodes (lifNodeDelete entry.1 h.nodes list).1).free c
        (h.blocks entry.1).key).bind fun h₂ => (h₂.free c (some entry.1)).bind fun h₃ =>
          some (h₃, (lifNodeDelete entry.1 h.nodes list).2)) := rfl
    rw [step, deleted, at_.key, freed₂, Option.bind_some, freed₃, Option.bind_some]
  · rw [entryNodes, List.map_append]
    refine linked.congr fun b member => congrArg HeapBlock.node (kept (List.mem_append_left _ (entry_mem_ownBlocks ?_)))
    rwa [← List.map_append, ← entryNodes, entryNodes_addresses] at member
  · refine (kept (List.mem_append_right _ member)).trans (setNodes_block (same b ?_))
    rw [← List.map_append, ← entryNodes, entryNodes_addresses]
    intro inside
    refine rep.apart (entry_mem_ownBlocks ?_) member
    rw [List.map_append] at inside ⊢
    exact (List.sublist_cons_self _ _).append_left _ |>.subset inside

theorem delete_represents (key : Str) (rep : Represents h list dict own others) (enough : dict.length ≤ fuel) :
    ∃ h' list' own', h.lifDictDelete c fuel list key = some (h', list') ∧ Represents h' list' (lifDictDelete dict key) own' others ∧
      ∀ b ∈ others, h'.blocks b = h.blocks b := by
  rcases find_represents rep enough with ⟨found, absent⟩ | ⟨entry, found, ⟨there⟩⟩
  · refine ⟨h, list, own, congrArg (Option.bind · _) found, ?_, fun _ _ => rfl⟩
    rwa [lifDictDelete_absent absent]
  · obtain ⟨text, data, front, back, passed, rest, addresses, items, before, here, behind, first⟩ := there
    subst addresses items
    obtain ⟨h', list', deleted, rep', -, -, same⟩ := deleteEntry_represents (c := c) rep before here behind
    refine ⟨h', list', front ++ back, (congrArg (Option.bind · _) found).trans deleted, ?_, same⟩
    rwa [lifDictDelete_passed first]

/-- The loop comes to every entry, also while entries are deleted. -/
theorem deleteNodes_represents {select : Str → α → Bool} {kept : List (A × A)} {items : LifDict α} (enough : dict.length ≤ fuel)
    (rep : Represents h list (items ++ dict) (kept ++ own) others) (before : List.Forall₂ (EntryAt h) kept items)
    (behind : List.Forall₂ (EntryAt h) own dict) :
    ∃ h' list' own', Heap.deleteNodes c select fuel (first (entryNodes own : List (A × Target A α)) none)
        ((first (entryNodes own : List (A × Target A α)) none).bind fun iter => (h.blocks iter).node.next) h list = some (h', list') ∧
      Represents h' list' (items ++ dict.filter fun entry => !select entry.1 entry.2) own' others ∧
      ∀ b ∈ others, h'.blocks b = h.blocks b := by
  induction own generalizing fuel kept items dict h list with
  | nil =>
    cases behind
    exact ⟨h, list, kept ++ [], by cases fuel <;> rfl, rep, fun _ _ => rfl⟩
  | cons entry own ih =>
    obtain _ | @⟨_, item, _, dict, at_, behind⟩ := behind
    obtain ⟨fuel, rfl⟩ : ∃ n, fuel = n + 1 := ⟨fuel - 1, by rw [List.length_cons] at enough; omega⟩
    have enough : dict.length ≤ fuel := Nat.le_of_succ_le_succ enough
    have seg := rep.holds.seg
    rw [entryNodes, List.map_append] at seg
    obtain ⟨target, name, next⟩ := visit_entry (seg_append.mp seg).2 at_
    have next_ : (first (entryNodes (entry :: own) : List (A × Target A α)) none).bind (fun iter => (h.blocks iter).node.next) =
        first (entryNodes own : List (A × Target A α)) none := next
    have step {iterNext : Option A} : Heap.deleteNodes c select (fuel + 1) (some entry.1) iterNext h list =
        (if select item.1 item.2 then h.lifDictDeleteEntry c list entry.1 else some (h, list)).bind fun after =>
          Heap.deleteNodes c select fuel iterNext (iterNext.bind fun iter => (after.1.blocks iter).node.next) after.1 after.2 := by
      refine (congrArg (Option.bind · _) target).trans ((congrArg (Option.bind · _) name).trans ?_)
      dsimp only [Option.bind_some]
      rw [at_.data]
      cases select item.1 item.2 <;> rfl
    rw [next_]
    show ∃ h' list' own', Heap.deleteNodes c select (fuel + 1) (some entry.1) _ h list = _ ∧ _
    rw [step]
    cases chosen : select item.1 item.2 with
    | true =>
      obtain ⟨h₁, list₁, deleted, rep₁, before₁, behind₁, same₁⟩ := deleteEntry_represents (c := c) rep before at_ behind
      obtain ⟨h₂, list₂, own₂, run, rep₂, same₂⟩ := ih enough rep₁ before₁ behind₁
      refine ⟨h₂, list₂, own₂, ?_, ?_, fun b member => (same₂ b member).trans (same₁ b member)⟩
      · rw [if_pos rfl, deleted]
        exact run
      · rwa [List.filter_cons_of_neg (by simp [chosen])]
    | false =>
      have rep₁ : Represents h list ((items ++ [item]) ++ dict) ((kept ++ [entry]) ++ own) others := by
        rwa [List.append_assoc, List.append_assoc]
      have before₁ : List.Forall₂ (EntryAt h) (kept ++ [entry]) (items ++ [item]) :=
        List.rel_append before (List.Forall₂.cons at_ List.Forall₂.nil)
      obtain ⟨h₂, list₂, own₂, run, rep₂, same₂⟩ := ih enough rep₁ before₁ behind
      refine ⟨h₂, list₂, own₂, ?_, ?_, same₂⟩
      · rw [if_neg (by simp)]
        exact run
      · rw [List.filter_cons_of_pos (by simp [chosen])]
        rwa [List.append_assoc] at rep₂

theorem deleteEach_represents (select : Str → α → Bool) (enough : dict.length ≤ fuel) (rep : Represents h list dict own others) :
    ∃ h' list' own', h.deleteEach c select fuel list = some (h', list') ∧
      Represents h' list' (dict.filter fun entry => !select entry.1 entry.2) own' others ∧ ∀ b ∈ others, h'.blocks b = h.blocks b := by
  unfold Heap.deleteEach
  rw [rep.holds.head]
  exact @deleteNodes_represents _ _ _ _ c h list dict own others fuel select [] [] enough rep List.Forall₂.nil rep.entries

end

end Ifupdown
