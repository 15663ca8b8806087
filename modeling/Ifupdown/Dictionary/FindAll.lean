import Ifupdown.Dictionary.Operations

/-! The lists that `lif_dict_find_all` makes, and their release. -/
namespace Ifupdown

open Segments

section
variable {A α : Type} [Inhabited α] [DecidableEq A] {c : Allocator A α} {h : Heap A α} {list : LifList A} {dict : LifDict α}
  {own : List (A × A)} {others : List A} {key : Str} {data : α} {fuel : Nat} {before : Option A} {header : A}
  {found nodes : List (A × Target A α)} {values : List α}

/-- A list of data next to the dictionary, in blocks that neither it nor anyone else has. -/
structure Collects (h : Heap A α) (list : LifList A) (dict : LifDict α) (own : List (A × A)) (header : A)
    (found : List (A × Target A α)) (values : List α) (others : List A) : Prop where
  rep : Represents h list dict own (header :: (found.map Prod.fst ++ others))
  holds : (h.blocks header).list.Holds h.nodes found
  values : found.map Prod.snd = values.map Target.data

theorem store_list_nodes (a : A) (list : LifList A) : (h.store a { h.blocks a with list := list }).nodes = h.nodes := by
  funext b
  unfold Heap.nodes
  by_cases same : b = a
  · rw [same, store_self]
  · rw [store_other _ same]

theorem appendData_collects (data : α) (got : Collects h list dict own header found values others) :
    ∃ found', Collects (h.appendData c header data) list dict own header found' (values ++ [data]) others ∧
      ∀ b, b ∈ ownBlocks own ∨ b ∈ others → (h.appendData c header data).blocks b = h.blocks b := by
  obtain ⟨rep, holds, read⟩ := got
  let new := (h.calloc c).1
  let h₁ := (h.calloc c).2
  have fresh : new ∉ h.live := calloc_fresh
  have same₁ {b : A} (live : b ∈ h.live) : h₁.blocks b = h.blocks b := calloc_other live
  have known : header ∈ h.live := rep.other_live List.mem_cons_self
  have collected {b : A} (member : b ∈ found.map Prod.fst) : b ∈ h.live :=
    rep.other_live (List.mem_cons_of_mem _ (List.mem_append_left _ member))
  have holds₁ : (h₁.blocks header).list.Holds h₁.nodes found := by
    rw [same₁ known]
    exact holds.congr fun b member => congrArg HeapBlock.node (same₁ (collected member))
  have absent : new ∉ found.map Prod.fst := fun member => fresh (collected member)
  have node : h₁.nodes new = {} := congrArg HeapBlock.node calloc_block
  let inserted := lifNodeInsertTail new (some (.data data)) h₁.nodes (h₁.blocks header).list
  have linked : inserted.2.Holds inserted.1 (found ++ [(new, .data data)]) :=
    insertTail_holds holds₁ absent (by rw [node]) (by rw [node])
  let h₂ := h₁.setNodes inserted.1
  have appended : h.appendData c header data = h₂.store header { h₂.blocks header with list := inserted.2 } := rfl
  rw [appended]
  have distinct := (List.nodup_append.mp (rep.live.nodup_iff.mp rep.distinct)).2.1
  obtain ⟨alone, distinct⟩ := List.nodup_cons.mp distinct
  have kept {b : A} (away : b ≠ header) (live : b ∈ h.live) (apart : b ∉ found.map Prod.fst) :
      (h₂.store header { h₂.blocks header with list := inserted.2 }).blocks b = h.blocks b := by
    have other : b ∉ new :: found.map Prod.fst := fun member =>
      (List.mem_cons.mp member).elim (fun same => fresh (same ▸ live)) apart
    rw [store_other _ away]
    exact (setNodes_block (insertTail_other holds₁ other)).trans (same₁ live)
  have keptOwn {b : A} (member : b ∈ ownBlocks own) :
      (h₂.store header { h₂.blocks header with list := inserted.2 }).blocks b = h.blocks b := by
    have apart := rep.apart member
    rw [List.mem_cons, List.mem_append, not_or, not_or] at apart
    exact kept apart.1 (rep.own_live member) apart.2.1
  refine ⟨found ++ [(new, .data data)], ⟨rep.frame (fun b member => keptOwn member) ?_ ?_, ?_, ?_⟩, ?_⟩
  · show (new :: h.live).Perm _
    refine (rep.live.cons new).trans (List.perm_middle.symm.trans (List.Perm.append_left _ ?_))
    rw [List.map_append, List.append_assoc]
    exact (List.Perm.swap header new _).trans (List.Perm.cons header List.perm_middle.symm)
  · exact List.nodup_cons.mpr ⟨fresh, rep.distinct⟩
  · rw [store_self, store_list_nodes]
    exact linked
  · rw [List.map_append, read, List.map_append]
    rfl
  · rintro b (member | member)
    · exact keptOwn member
    · have away : b ≠ header := fun same => alone (List.mem_append_right _ (same ▸ member))
      have listed : b ∈ header :: (found.map Prod.fst ++ others) := List.mem_cons_of_mem _ (List.mem_append_right _ member)
      refine kept away (rep.other_live listed) fun inside => ?_
      exact (List.nodup_append.mp distinct).2.2 b inside b member rfl

theorem findAllNodes_collects (key : Str) {rest : List (A × A)} {items : LifDict α} (enough : items.length ≤ fuel)
    (seg : Seg h.nodes before (entryNodes rest) none) (inside : ∀ b ∈ ownBlocks rest, b ∈ ownBlocks own)
    (entries : List.Forall₂ (EntryAt h) rest items) (got : Collects h list dict own header found values others) :
    ∃ h' found', Heap.findAllNodes c key header fuel (first (entryNodes rest : List (A × Target A α)) none) h = some h' ∧
      Collects h' list dict own header found' (values ++ dataAt items key) others ∧ ∀ b ∈ others, h'.blocks b = h.blocks b := by
  induction rest generalizing fuel before items h found values with
  | nil =>
    cases entries
    exact ⟨h, found, by cases fuel <;> rfl, by rwa [dataAt_nil, List.append_nil], fun _ _ => rfl⟩
  | cons entry rest ih =>
    obtain _ | @⟨_, item, _, items, at_, entries⟩ := entries
    obtain ⟨fuel, rfl⟩ : ∃ n, fuel = n + 1 := ⟨fuel - 1, by rw [List.length_cons] at enough; omega⟩
    have enough : items.length ≤ fuel := Nat.le_of_succ_le_succ enough
    obtain ⟨target, name, next⟩ := visit_entry seg at_
    have later : ∀ b ∈ ownBlocks rest, b ∈ ownBlocks own := by
      intro b member
      obtain ⟨other, member, which⟩ := mem_ownBlocks.mp member
      exact inside b (mem_ownBlocks.mpr ⟨other, List.mem_cons_of_mem _ member, which⟩)
    have here : entry.1 ∈ ownBlocks own := inside _ (mem_ownBlocks.mpr ⟨entry, List.mem_cons_self, Or.inl rfl⟩)
    have step : Heap.findAllNodes c key header (fuel + 1) (first (entryNodes (entry :: rest) : List (A × Target A α)) none) h =
        Heap.findAllNodes c key header fuel
          ((if item.1 = key then h.appendData c header item.2 else h).blocks entry.1).node.next
          (if item.1 = key then h.appendData c header item.2 else h) := by
      refine (congrArg (Option.bind · _) target).trans ((congrArg (Option.bind · _) name).trans ?_)
      dsimp only [Option.bind_some]
      rw [at_.data]
    rw [step, dataAt_cons]
    by_cases hit : item.1 = key
    · simp only [if_pos hit]
      obtain ⟨found₁, got₁, same₁⟩ := appendData_collects (c := c) item.2 got
      rw [same₁ _ (Or.inl here), next]
      have seg₁ : Seg (h.appendData c header item.2).nodes (some entry.1) (entryNodes rest) none := by
        refine seg_congr (fun b member => congrArg HeapBlock.node (same₁ b (Or.inl (later b (entry_mem_ownBlocks ?_))))) seg.2
        rwa [entryNodes_addresses] at member
      have entries₁ := entriesAt_congr (fun b member => same₁ b (Or.inl (later b member))) entries
      obtain ⟨h', found', run, got', same'⟩ := ih enough seg₁ later entries₁ got₁
      refine ⟨h', found', run, ?_, fun b member => (same' b member).trans (same₁ b (Or.inr member))⟩
      rwa [List.append_assoc] at got'
    · simp only [if_neg hit]
      rw [next]
      exact ih enough seg.2 later entries got

theorem findAll_collects (key : Str) (rep : Represents h list dict own others) (enough : dict.length ≤ fuel) :
    ∃ result h', h.lifDictFindAll c fuel list key = some (result, h') ∧ (∀ b ∈ others, h'.blocks b = h.blocks b) ∧
      ((result = none ∧ dataAt dict key = [] ∧ Represents h' list dict own others) ∨
        ∃ header found, result = some header ∧ dataAt dict key ≠ [] ∧
          Collects h' list dict own header found (dataAt dict key) others) := by
  let header := (h.calloc c).1
  let h₁ := (h.calloc c).2
  have fresh : header ∉ h.live := calloc_fresh
  have same₁ {b : A} (live : b ∈ h.live) : h₁.blocks b = h.blocks b := calloc_other live
  have rep₁ : Represents h₁ list dict own (header :: others) := by
    refine rep.frame (fun b member => same₁ (rep.own_live member)) ?_ (List.nodup_cons.mpr ⟨fresh, rep.distinct⟩)
    exact (rep.live.cons header).trans List.perm_middle.symm
  have got : Collects h₁ list dict own header [] [] others := by
    refine ⟨rep₁, ?_, rfl⟩
    have block : h₁.blocks header = {} := calloc_block
    rw [block]
    exact holds_empty _
  obtain ⟨h₂, found, run, got₂, same₂⟩ :=
    findAllNodes_collects (c := c) key enough rep₁.holds.seg (fun _ member => member) rep₁.entries got
  rw [List.nil_append] at got₂
  rw [← rep₁.holds.head] at run
  have same {b : A} (member : b ∈ others) : h₂.blocks b = h.blocks b := (same₂ b member).trans (same₁ (rep.other_live member))
  have count : (h₂.blocks header).list.length = (dataAt dict key).length := by
    rw [got₂.holds.length, ← List.length_map Prod.snd, got₂.values, List.length_map]
  have step : h.lifDictFindAll c fuel list key =
      if (h₂.blocks header).list.length = 0 then (h₂.free c (some header)).bind fun h => some (none, h)
      else some (some header, h₂) := congrArg (Option.bind · _) run
  rw [step, count]
  by_cases empty : dataAt dict key = []
  · rw [empty] at got₂ ⊢
    have none_ : found = [] := List.map_eq_nil_iff.mp got₂.values
    subst none_
    have live : h₂.live.Perm (header :: (ownBlocks own ++ others)) := got₂.rep.live.trans List.perm_middle
    obtain ⟨h₃, freed, live₃, distinct₃, same₃⟩ := free_block (c := c) live got₂.rep.distinct
    refine ⟨none, h₃, ?_, fun b member => (same₃ b (List.mem_append_right _ member)).trans (same member), Or.inl ⟨rfl, rfl, ?_⟩⟩
    · rw [freed]
      rfl
    · exact got₂.rep.frame (fun b member => same₃ b (List.mem_append_left _ member)) live₃ distinct₃
  · refine ⟨some header, h₂, ?_, fun _ => same, Or.inr ⟨header, found, rfl, empty, got₂⟩⟩
    rw [if_neg fun none_ => empty (List.length_eq_zero_iff.mp none_)]

theorem freeNodes_represents (got : Collects h list dict own header found values others) (enough : values.length ≤ fuel) :
    ∃ h', h.lifListFreeNodes c fuel (some header) = some h' ∧ Represents h' list dict own others ∧
      ∀ b ∈ others, h'.blocks b = h.blocks b := by
  obtain ⟨rep, holds, read⟩ := got
  have count : found.length ≤ fuel := by
    rwa [← List.length_map Prod.snd, read, List.length_map]
  have live : h.live.Perm (found.map Prod.fst ++ (header :: (ownBlocks own ++ others))) := by
    refine rep.live.trans (List.perm_middle.trans ?_)
    exact ((List.perm_append_comm_assoc (ownBlocks own) (found.map Prod.fst) others).cons header).trans List.perm_middle.symm
  obtain ⟨h₁, freed₁, live₁, distinct₁, same₁⟩ := freeNodes_all (c := c) count holds.seg live rep.distinct
  obtain ⟨h₂, freed₂, live₂, distinct₂, same₂⟩ := free_block (c := c) live₁ distinct₁
  have same {b : A} (member : b ∈ ownBlocks own ++ others) : h₂.blocks b = h.blocks b :=
    (same₂ b member).trans (same₁ b (List.mem_cons_of_mem _ member))
  refine ⟨h₂, ?_, rep.frame (fun b member => same (List.mem_append_left _ member)) live₂ distinct₂,
    fun b member => same (List.mem_append_right _ member)⟩
  unfold Heap.lifListFreeNodes
  dsimp only
  rw [holds.head]
  exact (congrArg (Option.bind · _) freed₁).trans freed₂

omit [DecidableEq A] in
theorem readData_all (enough : values.length ≤ fuel) (seg : Seg h.nodes before nodes none)
    (read : nodes.map Prod.snd = values.map Target.data) : h.readData fuel (first nodes none) = some values := by
  induction nodes generalizing before values fuel with
  | nil =>
    have none_ : values = [] := List.map_eq_nil_iff.mp read.symm
    subst none_
    cases fuel <;> rfl
  | cons node nodes ih =>
    obtain ⟨a, target⟩ := node
    cases values with
    | nil => cases read
    | cons value values =>
      obtain ⟨rfl, later⟩ := List.cons.inj read
      obtain ⟨fuel, rfl⟩ : ∃ n, fuel = n + 1 := ⟨fuel - 1, by rw [List.length_cons] at enough; omega⟩
      have here : (h.blocks a).node = ⟨before, first nodes none, some (.data value)⟩ := seg.1
      have own : h.dataOf a = some value := by
        unfold Heap.dataOf
        rw [here]
      refine (congrArg (Option.bind · _) own).trans ?_
      dsimp only [Option.bind_some]
      rw [here]
      exact congrArg (Option.bind · _) (ih (Nat.le_of_succ_le_succ enough) seg.2 later)

omit [DecidableEq A] in
theorem comparedNodes_all (compar : α → α → Int) (data : α) (enough : values.length ≤ fuel) (seg : Seg h.nodes before nodes none)
    (read : nodes.map Prod.snd = values.map Target.data) :
    h.comparedNodes compar data fuel (first nodes none) = some (values.any fun other => compar data other = 0) := by
  induction nodes generalizing before values fuel with
  | nil =>
    have none_ : values = [] := List.map_eq_nil_iff.mp read.symm
    subst none_
    cases fuel <;> rfl
  | cons node nodes ih =>
    obtain ⟨a, target⟩ := node
    cases values with
    | nil => cases read
    | cons value values =>
      obtain ⟨rfl, later⟩ := List.cons.inj read
      obtain ⟨fuel, rfl⟩ : ∃ n, fuel = n + 1 := ⟨fuel - 1, by rw [List.length_cons] at enough; omega⟩
      have here : (h.blocks a).node = ⟨before, first nodes none, some (.data value)⟩ := seg.1
      have own : h.dataOf a = some value := by
        unfold Heap.dataOf
        rw [here]
      refine (congrArg (Option.bind · _) own).trans ?_
      dsimp only [Option.bind_some]
      rw [here, List.any_cons]
      by_cases same : compar data value = 0
      · rw [if_pos same, decide_eq_true same, Bool.true_or]
      · rw [if_neg same, decide_eq_false same, Bool.false_or]
        exact ih (Nat.le_of_succ_le_succ enough) seg.2 later

omit [DecidableEq A] in
theorem readEntries_all (enough : dict.length ≤ fuel) (seg : Seg h.nodes before (entryNodes own) none)
    (entries : List.Forall₂ (EntryAt h) own dict) :
    h.readEntries fuel (first (entryNodes own : List (A × Target A α)) none) = some dict := by
  induction entries generalizing before fuel with
  | nil => cases fuel <;> rfl
  | @cons entry item own dict at_ entries ih =>
    obtain ⟨fuel, rfl⟩ : ∃ n, fuel = n + 1 := ⟨fuel - 1, by rw [List.length_cons] at enough; omega⟩
    obtain ⟨target, name, next⟩ := visit_entry seg at_
    refine (congrArg (Option.bind · _) target).trans ((congrArg (Option.bind · _) name).trans ?_)
    dsimp only [Option.bind_some]
    rw [next, at_.data]
    exact congrArg (Option.bind · _) (ih (Nat.le_of_succ_le_succ enough) seg.2)

/-- The list that is searched for the data is temporary. -/
theorem searchExisting_represents (compar : α → α → Int) (key : Str) (data : α) (rep : Represents h list dict own others)
    (enough : dict.length ≤ fuel) :
    ∃ result h₁ h', h.lifDictFindAll c fuel list key = some (result, h₁) ∧
      h₁.searchExisting c compar fuel data result = some ((dataAt dict key).any fun other => compar data other = 0, h') ∧
      Represents h' list dict own others ∧ ∀ b ∈ others, h'.blocks b = h.blocks b := by
  obtain ⟨result, h₁, searched, same₁, outcome⟩ := findAll_collects (c := c) key rep enough
  rcases outcome with ⟨rfl, empty, rep₁⟩ | ⟨header, found, rfl, -, got⟩
  · refine ⟨none, h₁, h₁, searched, ?_, rep₁, same₁⟩
    rw [empty]
    rfl
  · have few : (dataAt dict key).length ≤ fuel := Nat.le_trans (List.length_filterMap_le _ dict) enough
    have compared := comparedNodes_all compar data few got.holds.seg got.values
    obtain ⟨h₂, freed, rep₂, same₂⟩ := freeNodes_represents (c := c) got few
    rw [← got.holds.head] at compared
    refine ⟨some header, h₁, h₂, searched, ?_, rep₂, fun b member => (same₂ b member).trans (same₁ b member)⟩
    exact (congrArg (Option.bind · _) compared).trans (congrArg (Option.bind · _) freed)

theorem addOnce_represents (compar : α → α → Int) (key : Str) (data : α) (rep : Represents h list dict own others)
    (enough : dict.length ≤ fuel) :
    if (dataAt dict key).any (fun other => compar data other = 0) then
      ∃ h', h.lifDictAddOnce c compar fuel list key data = some (none, h', list) ∧ Represents h' list dict own others ∧
        ∀ b ∈ others, h'.blocks b = h.blocks b
    else
      ∃ entry text h' list', h.lifDictAddOnce c compar fuel list key data = some (some entry, h', list') ∧
        Represents h' list' (lifDictAdd dict key data) (own ++ [(entry, text)]) others ∧ EntryAt h' (entry, text) (key, data) ∧
        ∀ b ∈ others, h'.blocks b = h.blocks b := by
  obtain ⟨result, h₁, h₂, searched, existing, rep₂, same₂⟩ :=
    searchExisting_represents (c := c) compar key data rep enough
  have step : h.lifDictAddOnce c compar fuel list key data =
      if (dataAt dict key).any (fun other => compar data other = 0) then some (none, h₂, list)
      else some (some (h₂.lifDictAdd c list key data).1, (h₂.lifDictAdd c list key data).2.1, (h₂.lifDictAdd c list key data).2.2) :=
    (congrArg (Option.bind · _) searched).trans (congrArg (Option.bind · _) existing)
  rw [step]
  split
  · exact ⟨h₂, rfl, rep₂, same₂⟩
  · obtain ⟨entry, text, h₃, list₃, added, rep₃, at_, same₃⟩ := add_represents (c := c) key data rep₂
    rw [added]
    exact ⟨entry, text, h₃, list₃, rfl, rep₃, at_, fun b member => (same₃ b member).trans (same₂ b member)⟩

end

end Ifupdown
