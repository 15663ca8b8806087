import Ifupdown.Parser.Variables

/-! The walk of `lif_interface_collection_inherit` over the variables of the parent. -/
namespace Ifupdown

def markedVars (collection : Collection) (ifname parent : Str) : LifDict VarData :=
  lifDictAdd (collection.iface ifname).vars (str "inherit") (.text parent)

def addNew (known : List VarData) (data : VarData) : List VarData := if data ∈ known then known else known ++ [data]

section
variable {config : LifConfig} {collection collection' : Collection} {ifname parent key : Str} {fuel : Nat}
  {vars rest vars' : LifDict VarData}

theorem inheritVars_ends {fuel : Nat} {vars rest : LifDict VarData} (enough : rest.length ≤ fuel) :
    ∃ vars', inheritVars false fuel vars rest = some vars' := by
  induction rest generalizing fuel vars with
  | nil => exact ⟨vars, by unfold inheritVars; rfl⟩
  | cons entry rest ih =>
    cases fuel with
    | zero => simp at enough
    | succ fuel =>
      unfold inheritVars
      exact ih (Nat.le_of_succ_le_succ enough)

theorem inheritVars_unaddressed (known : ∀ entry ∈ rest, entry ∈ vars) (enough : rest.length ≤ fuel)
    (none : str "address" ∉ lifDictKeys rest) : inheritVars true fuel vars rest = some vars := by
  induction rest generalizing fuel with
  | nil => simp [inheritVars]
  | cons entry rest ih =>
    obtain ⟨key, data⟩ := entry
    obtain ⟨present, known⟩ := List.forall_mem_cons.mp known
    obtain ⟨other, none⟩ := not_or.mp (fun h => none (List.mem_cons.mpr h))
    cases fuel with
    | zero => cases enough
    | succ fuel =>
      unfold inheritVars
      dsimp only
      rw [if_neg (Ne.symm other), lifDictAddOnce, if_pos present, List.drop_length, List.append_nil, if_pos rfl]
      exact ih known (Nat.le_of_succ_le_succ enough) none

/-- Whoever has more before it than the fuel lasts does not end. -/
theorem inheritVars_short {self : Bool} (short : fuel < rest.length) : inheritVars self fuel vars rest = none := by
  induction fuel generalizing vars rest with
  | zero =>
    cases rest with
    | nil => cases short
    | cons entry rest => rfl
  | succ fuel ih =>
    cases rest with
    | nil => cases short
    | cons entry rest =>
      unfold inheritVars
      refine ih ?_
      have shorter : fuel < rest.length := Nat.lt_of_succ_lt_succ short
      split
      · rw [List.length_append]
        omega
      · exact shorter

theorem inheritVars_walks (full : rest.length = fuel) (address : str "address" ∈ lifDictKeys rest) :
    inheritVars true fuel vars rest = none := by
  induction rest generalizing fuel vars with
  | nil => cases address
  | cons entry rest ih =>
    obtain ⟨key, data⟩ := entry
    subst full
    rw [List.length_cons]
    unfold inheritVars
    dsimp only
    by_cases own : key = str "address"
    · refine inheritVars_short ?_
      rw [if_pos own, lifDictAdd, List.drop_left, if_pos rfl, List.length_append]
      exact Nat.lt_succ_self _
    · have later : str "address" ∈ lifDictKeys rest := (List.mem_cons.mp address).resolve_left (Ne.symm own)
      rw [if_neg own]
      by_cases present : (key, data) ∈ vars
      · rw [lifDictAddOnce, if_pos present, List.drop_length, List.append_nil, if_pos rfl]
        exact ih rfl later
      · refine inheritVars_short ?_
        rw [lifDictAddOnce, if_neg present, lifDictAdd, List.drop_left, if_pos rfl, List.length_append]
        exact Nat.lt_succ_self _

theorem inherit_vars : (lifInterfaceCollectionInherit config collection ifname parent).map (fun after => (after.iface ifname).vars) =
    let walked := if ifname = parent then markedVars collection ifname parent else (collection.iface parent).vars
    inheritVars (ifname == parent) walked.length (markedVars collection ifname parent) walked := by
  have templates (x : Str) : ((if config.implicitTemplateConversion = true then
      collection.write parent (fun iface => { iface with isTemplate := true }) (fun _ => rfl)
      else collection).iface x).vars = (collection.iface x).vars := by
    split
    · rw [iface_write]
      split <;> rfl
    · rfl
  unfold lifInterfaceCollectionInherit markedVars
  revert templates
  generalize (if config.implicitTemplateConversion = true then
      collection.write parent (fun iface => { iface with isTemplate := true }) (fun _ => rfl)
      else collection) = converted
  intro templates
  dsimp only
  have marked (x : Str) : ((converted.write ifname (fun iface =>
      { iface with vars := lifDictAdd iface.vars (str "inherit") (.text parent) }) (fun _ => rfl)).iface x).vars =
        if ifname = x then lifDictAdd (collection.iface ifname).vars (str "inherit") (.text parent)
        else (collection.iface x).vars := by
    rw [iface_write]
    split
    · rename_i own
      rw [templates, own]
    · exact templates x
  rw [Option.map_map, marked, marked, if_pos rfl]
  refine Eq.trans (congrFun (congrArg Option.map ?_) _) (congrFun Option.map_id _)
  funext vars
  simp [iface_write]

theorem inheritVars_data (h : inheritVars false fuel vars rest = some vars') : dataAt vars' key =
    if key = str "address" then dataAt vars key ++ dataAt rest key else (dataAt rest key).foldl addNew (dataAt vars key) := by
  induction rest generalizing fuel vars with
  | nil =>
    unfold inheritVars at h
    cases h
    split <;> simp
  | cons entry rest ih =>
    obtain ⟨name, data⟩ := entry
    cases fuel with
    | zero => cases h
    | succ fuel =>
      rw [ih h, dataAt_cons]
      by_cases address : name = str "address"
      · by_cases own : key = str "address"
        · simp [address, own, dataAt_add]
        · simp [address, own, Ne.symm own, dataAt_add]
      · rw [if_neg address, dataAt_addOnce]
        by_cases own : key = str "address"
        · have other : name ≠ key := own ▸ address
          simp [own, own ▸ other]
        · rw [if_neg own, if_neg own]
          by_cases same : name = key
          · subst same
            have new : addNew (dataAt vars name) data =
                dataAt vars name ++ if name = name ∧ (name, data) ∉ vars then [data] else [] := by
              unfold addNew
              by_cases present : (name, data) ∈ vars <;> simp [mem_dataAt, present]
            rw [if_pos rfl, List.foldl_cons, new]
          · simp [same]

theorem dataAt_marked (unmarked : key ≠ str "inherit") :
    dataAt (markedVars collection ifname parent) key = dataAt (collection.iface ifname).vars key := by
  unfold markedVars
  rw [dataAt_add, if_neg unmarked.symm, List.append_nil]

theorem addresses_none {vars : LifDict VarData} : dataAt vars (str "address") = [] ↔ str "address" ∉ lifDictKeys vars := by
  rw [List.eq_nil_iff_forall_not_mem, ← not_exists, not_iff_not]
  constructor
  · rintro ⟨data, member⟩
    exact List.mem_map_of_mem (mem_dataAt.mp member)
  · intro member
    obtain ⟨⟨key, data⟩, inside, same⟩ := List.mem_map.mp member
    exact ⟨data, mem_dataAt.mpr (same ▸ inside)⟩

/-- The walk of an interface over itself ends at once, or never. -/
theorem inheritVars_own : inheritVars true vars.length vars vars = if dataAt vars (str "address") = [] then some vars else none := by
  split
  · rename_i none
    exact inheritVars_unaddressed (fun _ member => member) (Nat.le_refl _) (addresses_none.mp none)
  · rename_i some_
    exact inheritVars_walks rfl (not_not.mp (mt addresses_none.mpr some_))

/-- The walk does not end just if an interface with an address inherits from itself. -/
theorem inherit_none : lifInterfaceCollectionInherit config collection ifname parent = none ↔
    ifname = parent ∧ dataAt (collection.iface parent).vars (str "address") ≠ [] := by
  have walk := @inherit_vars config collection ifname parent
  have mapped : lifInterfaceCollectionInherit config collection ifname parent = none ↔
      (lifInterfaceCollectionInherit config collection ifname parent).map (fun after => (after.iface ifname).vars) = none :=
    Option.map_eq_none_iff.symm
  rw [mapped, walk]
  dsimp only
  by_cases own : ifname = parent
  · subst own
    rw [if_pos rfl, beq_self_eq_true, inheritVars_own, dataAt_marked (by decide)]
    simp
  · obtain ⟨vars, ends⟩ := @inheritVars_ends _ (markedVars collection ifname parent) (collection.iface parent).vars (Nat.le_refl _)
    rw [if_neg own, beq_false_of_ne own, ends]
    simp [own]

theorem inherit_after (h : lifInterfaceCollectionInherit config collection ifname parent = some collection')
    (unmarked : key ≠ str "inherit") : dataAt (collection'.iface ifname).vars key =
      if key = str "address" then dataAt (collection.iface ifname).vars key ++ dataAt (collection.iface parent).vars key
      else if ifname = parent then dataAt (collection.iface ifname).vars key
      else (dataAt (collection.iface parent).vars key).foldl addNew (dataAt (collection.iface ifname).vars key) := by
  have walk := @inherit_vars config collection ifname parent
  rw [h, Option.map_some] at walk
  dsimp only at walk
  by_cases own : ifname = parent
  · have none : dataAt (collection.iface parent).vars (str "address") = [] := by
      by_contra some_
      rw [inherit_none.mpr ⟨own, some_⟩] at h
      cases h
    subst own
    rw [if_pos rfl, beq_self_eq_true, inheritVars_own, dataAt_marked (by decide), if_pos none] at walk
    rw [Option.some_inj.mp walk, dataAt_marked unmarked, if_pos rfl]
    split
    · rename_i address
      rw [address, none]
      rfl
    · rfl
  · rw [if_neg own, beq_false_of_ne own] at walk
    rw [inheritVars_data walk.symm, dataAt_marked unmarked, if_neg own]

theorem addNew_appends (known news : List VarData) :
    ∃ added, news.foldl addNew known = known ++ added ∧ (added = [] ↔ ∀ data ∈ news, data ∈ known) := by
  induction news generalizing known with
  | nil => exact ⟨[], (List.append_nil _).symm, by simp⟩
  | cons data news ih =>
    rw [List.foldl_cons, List.forall_mem_cons]
    unfold addNew
    by_cases old : data ∈ known
    · obtain ⟨added, after, none⟩ := ih known
      rw [if_pos old]
      exact ⟨added, after, none.trans (and_iff_right old).symm⟩
    · obtain ⟨added, after, -⟩ := ih (known ++ [data])
      rw [if_neg old]
      exact ⟨data :: added, after.trans (List.append_assoc ..), by simp [old]⟩

/-- What an interface inherits of a key stands behind what it had, and is new to it. -/
theorem inherit_data (h : lifInterfaceCollectionInherit config collection ifname parent = some collection')
    (copied : key ≠ str "address") (other : key ≠ str "inherit") :
    ∃ added, dataAt (collection'.iface ifname).vars key = dataAt (collection.iface ifname).vars key ++ added ∧
      (added = [] ↔ ∀ data ∈ dataAt (collection.iface parent).vars key, data ∈ dataAt (collection.iface ifname).vars key) := by
  rw [inherit_after h other, if_neg copied]
  split
  · rename_i own
    rw [own]
    exact ⟨[], (List.append_nil _).symm, by simp⟩
  · exact addNew_appends ..

end

end Ifupdown
