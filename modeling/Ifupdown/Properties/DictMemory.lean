import Ifupdown.Dictionary.FindAll
import Ifupdown.Model.Interface

/-! In memory dictionaries are what the rest of the model takes them for. -/
namespace Ifupdown

open Segments

section
variable {A α : Type} [Inhabited α] [DecidableEq A] {c : Allocator A α} {compar : α → α → Int} {h : Heap A α} {list : LifList A}
  {dict : LifDict α} {own : List (A × A)} {others : List A} {fuel : Nat}

/-- What a call answers, and the dictionary behind it. -/
def DictCall.meaning (compar : α → α → Int) (dict : LifDict α) : DictCall α → DictAnswer α × LifDict α
  | .add key data => (.entry key data, lifDictAdd dict key data)
  | .addOnce key data =>
    if (dataAt dict key).any (fun other => compar data other = 0) then (.nothing, dict)
    else (.entry key data, lifDictAdd dict key data)
  | .find key => ((lifDictFind dict key).elim .nothing (.entry key), dict)
  | .findAll key => (if dataAt dict key = [] then .nothing else .values (dataAt dict key), dict)
  | .delete key => (.nothing, lifDictDelete dict key)
  | .deleteEach select => (.nothing, dict.filter fun entry => !select entry.1 entry.2)
  | .foreach => (.entries dict, dict)

def dictMeanings (compar : α → α → Int) : LifDict α → List (DictCall α) → List (DictAnswer α) × LifDict α
  | dict, [] => ([], dict)
  | dict, call :: calls =>
    let (answers, after) := dictMeanings compar (call.meaning compar dict).2 calls
    ((call.meaning compar dict).1 :: answers, after)

omit [DecidableEq A] in
theorem readEntry_at {entry : A × A} {item : Str × α} (at_ : EntryAt h entry item) :
    h.readEntry (some entry.1) = some (.entry item.1 item.2) := by
  have name : h.keyOf entry.1 = some item.1 := by
    unfold Heap.keyOf
    rw [at_.key, Option.map_some, at_.text]
  refine (congrArg (Option.bind · _) name).trans ?_
  rw [← at_.data]
  rfl

/-- Each call answers what it means, keeps the representation and leaves the blocks of others alone. -/
theorem call_refines (rep : Represents h list dict own others) (enough : dict.length ≤ fuel) (call : DictCall α) :
    ∃ h' list' own', call.run c compar fuel h list = some ((call.meaning compar dict).1, h', list') ∧
      Represents h' list' (call.meaning compar dict).2 own' others ∧ ∀ b ∈ others, h'.blocks b = h.blocks b := by
  cases call with
  | add key data =>
    obtain ⟨entry, text, h', list', added, rep', at_, same⟩ := add_represents (c := c) key data rep
    refine ⟨h', list', _, ?_, rep', same⟩
    dsimp only [DictCall.run]
    rw [added]
    exact congrArg (Option.bind · _) (readEntry_at at_)
  | addOnce key data =>
    have outcome := addOnce_represents (c := c) compar key data rep enough
    dsimp only [DictCall.meaning]
    split at outcome <;> rename_i existing
    · obtain ⟨h', ran, rep', same⟩ := outcome
      rw [if_pos existing]
      exact ⟨h', list, own, congrArg (Option.bind · _) ran, rep', same⟩
    · obtain ⟨entry, text, h', list', ran, rep', at_, same⟩ := outcome
      rw [if_neg existing]
      refine ⟨h', list', _, ?_, rep', same⟩
      exact (congrArg (Option.bind · _) ran).trans (congrArg (Option.bind · _) (readEntry_at at_))
  | find key =>
    refine ⟨h, list, own, ?_, rep, fun _ _ => rfl⟩
    rcases find_represents rep enough with ⟨found, absent⟩ | ⟨entry, found, ⟨there⟩⟩
    · refine (congrArg (Option.bind · _) found).trans ?_
      dsimp only [DictCall.meaning]
      rw [lifDictFind_none.mpr absent]
      rfl
    · have value : lifDictFind dict key = some there.data := by
        conv_lhs => rw [there.items]
        exact lifDictFind_passed there.first
      refine (congrArg (Option.bind · _) found).trans ((congrArg (Option.bind · _) (readEntry_at there.here)).trans ?_)
      dsimp only [DictCall.meaning]
      rw [value]
      rfl
  | findAll key =>
    obtain ⟨result, h₁, searched, same₁, outcome⟩ := findAll_collects (c := c) key rep enough
    dsimp only [DictCall.meaning]
    rcases outcome with ⟨rfl, empty, rep₁⟩ | ⟨header, found, rfl, some_, got⟩
    · rw [if_pos empty]
      exact ⟨h₁, list, own, congrArg (Option.bind · _) searched, rep₁, same₁⟩
    · have few : (dataAt dict key).length ≤ fuel := Nat.le_trans (List.length_filterMap_le _ dict) enough
      have read := readData_all few got.holds.seg got.values
      rw [← got.holds.head] at read
      obtain ⟨h₂, freed, rep₂, same₂⟩ := freeNodes_represents (c := c) got few
      rw [if_neg some_]
      refine ⟨h₂, list, own, ?_, rep₂, fun b member => (same₂ b member).trans (same₁ b member)⟩
      refine (congrArg (Option.bind · _) searched).trans ?_
      exact (congrArg (Option.bind · _) read).trans (congrArg (Option.bind · _) freed)
  | delete key =>
    obtain ⟨h', list', own', deleted, rep', same⟩ := delete_represents (c := c) key rep enough
    exact ⟨h', list', own', congrArg (Option.bind · _) deleted, rep', same⟩
  | deleteEach select =>
    obtain ⟨h', list', own', deleted, rep', same⟩ := deleteEach_represents (c := c) select enough rep
    exact ⟨h', list', own', congrArg (Option.bind · _) deleted, rep', same⟩
  | foreach =>
    have read := readEntries_all enough rep.holds.seg rep.entries
    rw [← rep.holds.head] at read
    exact ⟨h, list, own, congrArg (Option.bind · _) read, rep, fun _ _ => rfl⟩

omit [Inhabited α] [DecidableEq A] in
theorem meaning_length (call : DictCall α) : (call.meaning compar dict).2.length ≤ dict.length + 1 := by
  cases call with
  | add key data => simp [DictCall.meaning, lifDictAdd]
  | addOnce key data =>
    unfold DictCall.meaning
    dsimp only
    split
    · exact Nat.le_succ _
    · simp [lifDictAdd]
  | delete key => exact Nat.le_succ_of_le lifDictDelete_sublist.length_le
  | deleteEach select => exact Nat.le_succ_of_le (List.length_filter_le _ dict)
  | find key => exact Nat.le_succ _
  | findAll key => exact Nat.le_succ _
  | foreach => exact Nat.le_succ _

theorem calls_refine (compar : α → α → Int) {calls : List (DictCall α)} (rep : Represents h list dict own others)
    (enough : dict.length + calls.length ≤ fuel) :
    ∃ h' list' own', runDictCalls c compar fuel h list calls = some ((dictMeanings compar dict calls).1, h', list') ∧
      Represents h' list' (dictMeanings compar dict calls).2 own' others ∧ (dictMeanings compar dict calls).2.length ≤ fuel ∧
      ∀ b ∈ others, h'.blocks b = h.blocks b := by
  induction calls generalizing h list dict own with
  | nil => exact ⟨h, list, own, rfl, rep, enough, fun _ _ => rfl⟩
  | cons call calls ih =>
    rw [List.length_cons] at enough
    have few : dict.length ≤ fuel := Nat.le_trans (Nat.le_add_right _ _) enough
    obtain ⟨h₁, list₁, own₁, ran, rep₁, same₁⟩ := @call_refines _ _ _ _ c compar _ _ _ _ _ _ rep few call
    have bound := @meaning_length _ compar dict call
    obtain ⟨h₂, list₂, own₂, rest, rep₂, few, same₂⟩ := ih rep₁ (by omega)
    refine ⟨h₂, list₂, own₂, ?_, rep₂, few, fun b member => (same₂ b member).trans (same₁ b member)⟩
    exact (congrArg (Option.bind · _) ran).trans (congrArg (Option.bind · _) rest)

/-- Whatever is called for a dictionary, the list in memory answers as the list of keys and data does, and
`lif_dict_fini` leaves what had been allocated before, with no block lost, freed twice or written to by mistake. -/
theorem dict_in_memory (c : Allocator A α) (compar : α → α → Int) (fuel : Nat) (start : Heap A α) (calls : List (DictCall α))
    (distinct : start.live.Nodup) (enough : calls.length ≤ fuel) : ∃ h list h',
      runDictCalls c compar fuel start {} calls = some ((dictMeanings compar [] calls).1, h, list) ∧
      list.length = (dictMeanings compar [] calls).2.length ∧ h.lifDictFini c fuel list = some (h', {}) ∧
      h'.live.Perm start.live ∧ ∀ b ∈ start.live, h.blocks b = start.blocks b ∧ h'.blocks b = start.blocks b := by
  have rep : Represents start {} [] [] start.live := ⟨holds_empty _, List.Forall₂.nil, List.Perm.refl _, distinct⟩
  obtain ⟨h, list, own, ran, rep₁, few, same₁⟩ := calls_refine (c := c) compar rep (by simpa using enough)
  obtain ⟨h', list', own', ended, rep₂, same₂⟩ := deleteEach_represents (c := c) (fun _ _ => true) few rep₁
  rw [List.filter_eq_nil_iff.mpr (by simp)] at rep₂
  have none_ : own' = [] := List.forall₂_nil_right_iff.mp rep₂.entries
  subst none_
  have empty : list' = {} := by
    obtain ⟨-, head, tail, length, -⟩ := rep₂.holds
    cases list'
    exact (LifList.mk.injEq ..).mpr ⟨head, tail, length⟩
  subst empty
  refine ⟨h, list, h', ran, ?_, ended, rep₂.live, fun b member => ⟨same₁ b member, (same₂ b member).trans (same₁ b member)⟩⟩
  rw [rep₁.holds.length, ← rep₁.entries.length_eq, entryNodes, List.length_map]

end

/-- Blocks are found behind all others, and hold nothing of use when they are freed. -/
def bumpAllocator : Allocator Nat Nat where
  fresh h := h.live.foldr max 0 + 1
  unused h member := by
    have bound {live : List Nat} {a : Nat} (member : a ∈ live) : a ≤ live.foldr max 0 := by
      induction live with
      | nil => cases member
      | cons b live ih =>
        rcases List.mem_cons.mp member with rfl | later
        · exact Nat.le_max_left _ _
        · exact Nat.le_trans (ih later) (Nat.le_max_right _ _)
    exact Nat.not_succ_le_self _ (bound member)
  scrap _ a := { node := { next := some a }, text := str "scrap" }

def addresses : List (DictCall Nat) :=
  [.add (str "address") 1, .addOnce (str "use") 2, .add (str "address") 3, .addOnce (str "use") 2, .findAll (str "address"),
    .delete (str "address"), .find (str "address"), .deleteEach fun key _ => key = str "address", .foreach]

theorem dict_in_memory_addresses : ∃ h list h',
    runDictCalls bumpAllocator (fun a b => a - b) 9 ⟨fun _ => {}, [1]⟩ {} addresses =
      some ([.entry (str "address") 1, .entry (str "use") 2, .entry (str "address") 3, .nothing, .values [1, 3], .nothing,
        .entry (str "address") 3, .nothing, .entries [(str "use", 2)]], h, list) ∧
      h.lifDictFini bumpAllocator 9 list = some (h', {}) ∧ h'.live.Perm [1] := by
  obtain ⟨h, list, h', ran, -, ended, live, -⟩ := dict_in_memory bumpAllocator (fun a b => a - b) 9 ⟨fun _ => {}, [1]⟩ addresses
    (by simp) (by decide)
  exact ⟨h, list, h', ran, ended, live⟩

end Ifupdown
