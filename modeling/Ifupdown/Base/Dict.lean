import Ifupdown.Base.Text

/-! The ordered multi-dictionary of dict.c. -/
namespace Ifupdown

abbrev LifDict (α : Type) := List (Str × α)

def lifDictFind : LifDict α → Str → Option α
  | [], _ => none
  | (name, data) :: rest, key => if name = key then some data else lifDictFind rest key

def lifDictAdd (dict : LifDict α) (key : Str) (data : α) : LifDict α := dict ++ [(key, data)]

/-- `lif_dict_delete_entry` on the entry that `lif_dict_find` returns. -/
def lifDictDelete : LifDict α → Str → LifDict α
  | [], _ => []
  | (name, data) :: rest, key =>
    if name = key then rest else (name, data) :: lifDictDelete rest key

/-- A write through the data pointer of the entry that `lif_dict_find` returns. -/
def lifDictWrite (dict : LifDict α) (key : Str) (f : α → α) : LifDict α :=
  match dict with
  | [] => []
  | (name, data) :: rest =>
    if name = key then (name, f data) :: rest else (name, data) :: lifDictWrite rest key f

abbrev lifDictKeys (dict : LifDict α) : List Str := dict.map Prod.fst

theorem lifDictFind_none {dict : LifDict α} {key : Str} :
    lifDictFind dict key = none ↔ key ∉ lifDictKeys dict := by
  induction dict with
  | nil => simp [lifDictFind]
  | cons entry rest ih =>
    simp only [lifDictFind, lifDictKeys, List.map_cons, List.mem_cons, not_or]
    split
    · rename_i same; simp [same]
    · rename_i other; simp [ih, Ne.symm other]

theorem lifDictFind_mem {dict : LifDict α} {key : Str} {data : α}
    (h : lifDictFind dict key = some data) : (key, data) ∈ dict := by
  induction dict with
  | nil => simp [lifDictFind] at h
  | cons entry rest ih =>
    simp only [lifDictFind] at h
    split at h
    · rename_i same
      cases h
      rw [← same]
      exact List.mem_cons_self
    · exact List.mem_cons_of_mem _ (ih h)

theorem lifDictFind_of_mem {dict : LifDict α} {key : Str} {data : α}
    (distinct : (lifDictKeys dict).Nodup) (h : (key, data) ∈ dict) :
    lifDictFind dict key = some data := by
  induction dict with
  | nil => simp at h
  | cons entry rest ih =>
    obtain ⟨fresh, distinct⟩ := List.nodup_cons.mp distinct
    simp only [lifDictFind]
    rcases List.mem_cons.mp h with rfl | later
    · simp
    · have other : entry.1 ≠ key := by
        intro same
        exact fresh (List.mem_map.mpr ⟨_, later, same.symm⟩)
      simp [other, ih distinct later]

theorem lifDictFind_add {dict : LifDict α} {key other : Str} {data : α} :
    lifDictFind (lifDictAdd dict key data) other =
      (lifDictFind dict other).or (if key = other then some data else none) := by
  unfold lifDictAdd
  induction dict with
  | nil => simp [lifDictFind]
  | cons entry rest ih =>
    simp only [List.cons_append, lifDictFind]
    split <;> simp [ih]

theorem lifDictFind_write {dict : LifDict α} {key other : Str} {f : α → α} :
    lifDictFind (lifDictWrite dict key f) other =
      if key = other then (lifDictFind dict other).map f else lifDictFind dict other := by
  induction dict with
  | nil => simp [lifDictWrite, lifDictFind]
  | cons entry rest ih =>
    obtain ⟨name, data⟩ := entry
    by_cases hit : name = key
    · by_cases same : key = other <;> simp [lifDictWrite, lifDictFind, hit, same]
    · by_cases same : name = other
      · subst same
        simp [lifDictWrite, lifDictFind, hit, Ne.symm hit]
      · simp [lifDictWrite, lifDictFind, hit, same, ih]

theorem lifDictKeys_write {dict : LifDict α} {key : Str} {f : α → α} :
    lifDictKeys (lifDictWrite dict key f) = lifDictKeys dict := by
  induction dict with
  | nil => rfl
  | cons entry rest ih =>
    unfold lifDictWrite
    split
    · simp
    · simpa using ih

theorem lifDictWrite_fixed {dict : LifDict α} {key : Str} {data : α} {f : α → α} (found : lifDictFind dict key = some data)
    (same : f data = data) : lifDictWrite dict key f = dict := by
  induction dict with
  | nil => rfl
  | cons entry rest ih =>
    obtain ⟨name, old⟩ := entry
    simp only [lifDictFind] at found
    unfold lifDictWrite
    split
    · rename_i hit
      rw [if_pos hit, Option.some_inj] at found
      rw [found, same]
    · rename_i miss
      rw [if_neg miss] at found
      rw [ih found]

theorem lifDictWrite_same {dict : LifDict α} {key : Str} {data : α} (found : lifDictFind dict key = some data) :
    lifDictWrite dict key (fun _ => data) = dict := lifDictWrite_fixed found rfl

theorem lifDictDelete_sublist {dict : LifDict α} {key : Str} :
    (lifDictDelete dict key).Sublist dict := by
  induction dict with
  | nil => exact List.Sublist.refl _
  | cons entry rest ih =>
    unfold lifDictDelete
    split
    · exact List.sublist_cons_self _ _
    · exact ih.cons_cons _

theorem lifDictFind_delete {dict : LifDict α} {key other : Str}
    (distinct : (lifDictKeys dict).Nodup) :
    lifDictFind (lifDictDelete dict key) other =
      if key = other then none else lifDictFind dict other := by
  induction dict with
  | nil => simp [lifDictDelete, lifDictFind]
  | cons entry rest ih =>
    obtain ⟨name, data⟩ := entry
    obtain ⟨fresh, distinct⟩ := List.nodup_cons.mp distinct
    by_cases hit : name = key
    · subst hit
      by_cases same : name = other
      · subst same
        simpa [lifDictDelete] using lifDictFind_none.mpr fresh
      · simp [lifDictDelete, lifDictFind, same]
    · by_cases same : name = other
      · subst same
        simp [lifDictDelete, lifDictFind, hit, Ne.symm hit]
      · simp [lifDictDelete, lifDictFind, hit, same, ih distinct]

theorem lifDictDelete_absent {dict : LifDict α} {key : Str} (absent : key ∉ lifDictKeys dict) :
    lifDictDelete dict key = dict := by
  induction dict with
  | nil => rfl
  | cons entry rest ih =>
    obtain ⟨other, later⟩ := not_or.mp (fun h => absent (List.mem_cons.mpr h))
    rw [lifDictDelete, if_neg (Ne.symm other), ih later]

theorem mem_lifDictDelete {dict : LifDict α} {key : Str} {entry : Str × α} (distinct : (lifDictKeys dict).Nodup) :
    entry ∈ lifDictDelete dict key ↔ entry ∈ dict ∧ entry.1 ≠ key := by
  induction dict with
  | nil => simp [lifDictDelete]
  | cons first rest ih =>
    obtain ⟨fresh, distinct⟩ := List.nodup_cons.mp distinct
    by_cases hit : first.1 = key
    · have later : entry ∈ rest → entry.1 ≠ key := by
        intro member same
        exact fresh (List.mem_map.mpr ⟨entry, member, same.trans hit.symm⟩)
      rw [lifDictDelete, if_pos hit, List.mem_cons]
      constructor
      · exact fun member => ⟨Or.inr member, later member⟩
      · rintro ⟨rfl | member, other⟩
        · exact absurd hit other
        · exact member
    · rw [lifDictDelete, if_neg hit, List.mem_cons, List.mem_cons, ih distinct]
      constructor
      · rintro (rfl | ⟨member, other⟩)
        · exact ⟨Or.inl rfl, hit⟩
        · exact ⟨Or.inr member, other⟩
      · rintro ⟨rfl | member, other⟩
        · exact Or.inl rfl
        · exact Or.inr ⟨member, other⟩

theorem lifDictKeys_delete_nodup {dict : LifDict α} {key : Str}
    (distinct : (lifDictKeys dict).Nodup) : (lifDictKeys (lifDictDelete dict key)).Nodup :=
  distinct.sublist (lifDictDelete_sublist.map _)

theorem lifDictKeys_add_nodup {dict : LifDict α} {key : Str} {data : α}
    (distinct : (lifDictKeys dict).Nodup) (fresh : lifDictFind dict key = none) :
    (lifDictKeys (lifDictAdd dict key data)).Nodup := by
  simp only [lifDictKeys, lifDictAdd, List.map_append, List.map_cons, List.map_nil]
  refine List.nodup_append.mpr ⟨distinct, by simp, ?_⟩
  intro a present b single same
  rw [List.mem_singleton] at single
  exact lifDictFind_none.mp fresh (by rwa [← single, ← same])

def dataAt (dict : LifDict α) (key : Str) : List α :=
  dict.filterMap fun entry => if entry.1 = key then some entry.2 else none

theorem mem_dataAt {dict : LifDict α} {key : Str} {data : α} : data ∈ dataAt dict key ↔ (key, data) ∈ dict := by
  unfold dataAt
  rw [List.mem_filterMap]
  constructor
  · intro ⟨⟨name, found⟩, member, same⟩
    dsimp only at same
    split at same
    · rename_i hit
      cases same
      rw [← hit]
      exact member
    · cases same
  · intro member
    exact ⟨(key, data), member, if_pos rfl⟩

@[simp] theorem dataAt_nil (key : Str) : dataAt ([] : LifDict α) key = [] := rfl

theorem dataAt_cons {entry : Str × α} {dict : LifDict α} {key : Str} :
    dataAt (entry :: dict) key = if entry.1 = key then entry.2 :: dataAt dict key else dataAt dict key := by
  unfold dataAt
  rw [List.filterMap_cons]
  split <;> rename_i read <;> split at read <;> cases read
  · rename_i other
    rw [if_neg other]
  · rename_i same
    rw [if_pos same]

@[simp] theorem dataAt_append (first second : LifDict α) (key : Str) :
    dataAt (first ++ second) key = dataAt first key ++ dataAt second key := List.filterMap_append

theorem dataAt_add {dict : LifDict α} {key other : Str} {data : α} :
    dataAt (lifDictAdd dict key data) other = dataAt dict other ++ if key = other then [data] else [] := by
  rw [lifDictAdd, dataAt_append, dataAt_cons, dataAt_nil]

theorem dataAt_delete {dict : LifDict α} {key other : Str} :
    dataAt (lifDictDelete dict key) other = if key = other then (dataAt dict other).tail else dataAt dict other := by
  induction dict with
  | nil => simp [lifDictDelete]
  | cons entry rest ih =>
    obtain ⟨name, data⟩ := entry
    unfold lifDictDelete
    by_cases hit : name = key
    · rw [if_pos hit, dataAt_cons, hit]
      split <;> rfl
    · rw [if_neg hit, dataAt_cons, dataAt_cons, ih]
      by_cases same : name = other
      · rw [if_pos same, if_pos same, if_neg (same ▸ Ne.symm hit), if_neg (same ▸ Ne.symm hit)]
      · rw [if_neg same, if_neg same]

theorem lifDictFind_head {dict : LifDict α} {key : Str} : lifDictFind dict key = (dataAt dict key).head? := by
  induction dict with
  | nil => rfl
  | cons entry rest ih =>
    rw [lifDictFind, dataAt_cons, ih]
    split <;> rfl

end Ifupdown
