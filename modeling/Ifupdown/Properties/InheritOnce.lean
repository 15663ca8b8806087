import Ifupdown.Parser.Walks

/-! What one call of `lif_interface_collection_inherit` copies, and what a second one copies again. -/
namespace Ifupdown

/-- One copy of each address, and one of each other pair that is not there yet. -/
structure Copied (parent vars added : LifDict VarData) : Prop where
  addresses : dataAt added (str "address") = dataAt parent (str "address")
  others : ∀ entry : Str × VarData, entry.1 ≠ str "address" → (entry ∈ added ↔ entry ∈ parent ∧ entry ∉ vars)
  once : (added.filter fun entry => entry.1 ≠ str "address").Nodup

/-- The call ends, leaves what the interface has, and copies the parent as it was. -/
def InheritsOnce (config : LifConfig) (collection : Collection) (ifname parent : Str) : Prop :=
  ∃ collection' added, lifInterfaceCollectionInherit config collection ifname parent = some collection' ∧
    (collection'.iface ifname).vars = markedVars collection ifname parent ++ added ∧
    Copied (collection.iface parent).vars (markedVars collection ifname parent) added

def ordinary (vars : LifDict VarData) : LifDict VarData := vars.filter fun entry => entry.1 ≠ str "inherit"

section
variable {config : LifConfig} {collection collection' : Collection} {ifname parent : Str} {fuel : Nat}
  {vars rest : LifDict VarData}

theorem inheritVars_other (enough : rest.length ≤ fuel) :
    ∃ added, inheritVars false fuel vars rest = some (vars ++ added) ∧ Copied rest vars added := by
  induction rest generalizing fuel vars with
  | nil => exact ⟨[], by simp [inheritVars], rfl, by simp, List.nodup_nil⟩
  | cons entry rest ih =>
    obtain ⟨key, data⟩ := entry
    cases fuel with
    | zero => cases enough
    | succ fuel =>
      have enough := Nat.le_of_succ_le_succ enough
      unfold inheritVars
      dsimp only
      rw [if_neg Bool.false_ne_true]
      by_cases address : key = str "address"
      · rw [if_pos address]
        obtain ⟨added, same, copied⟩ := @ih fuel (lifDictAdd vars key data) enough
        refine ⟨(key, data) :: added, by rw [same]; simp [lifDictAdd], ?_, ?_, ?_⟩
        · rw [dataAt_cons, dataAt_cons, if_pos address, if_pos address, copied.addresses]
        · intro other ordinary
          have apart : other ≠ (key, data) := fun own => ordinary (own ▸ address)
          simp [copied.others other ordinary, lifDictAdd, apart]
        · rw [List.filter_cons_of_neg (by simpa using address)]
          exact copied.once
      · rw [if_neg address]
        by_cases present : (key, data) ∈ vars
        · rw [lifDictAddOnce, if_pos present]
          obtain ⟨added, same, copied⟩ := @ih fuel vars enough
          refine ⟨added, same, ?_, ?_, copied.once⟩
          · rw [dataAt_cons, if_neg address, copied.addresses]
          · intro other ordinary
            rw [copied.others other ordinary, List.mem_cons]
            constructor
            · exact fun new => ⟨Or.inr new.1, new.2⟩
            · rintro ⟨rfl | later, absent⟩
              · exact absurd present absent
              · exact ⟨later, absent⟩
        · rw [lifDictAddOnce, if_neg present]
          obtain ⟨added, same, copied⟩ := @ih fuel (lifDictAdd vars key data) enough
          have apart : (key, data) ∉ added := by
            rw [copied.others (key, data) address]
            simp [lifDictAdd]
          refine ⟨(key, data) :: added, by rw [same]; simp [lifDictAdd], ?_, ?_, ?_⟩
          · rw [dataAt_cons, dataAt_cons, if_neg address, if_neg address, copied.addresses]
          · intro other ordinary
            by_cases own : other = (key, data)
            · simp [own, present]
            · simp [copied.others other ordinary, lifDictAdd, own]
          · rw [List.filter_cons_of_pos (by simpa using address), List.nodup_cons]
            exact ⟨fun member => apart (List.mem_filter.mp member).1, copied.once⟩

theorem inherits_self (own : ifname = parent) (none : str "address" ∉ lifDictKeys (collection.iface parent).vars) :
    InheritsOnce config collection ifname parent := by
  have walk := @inherit_vars config collection ifname parent
  have unmarked : str "address" ∉ lifDictKeys (markedVars collection ifname parent) := by
    subst own
    unfold markedVars lifDictAdd
    rw [lifDictKeys, List.map_append, List.mem_append]
    rintro (old | marker)
    · exact none old
    · have apart : str "address" ≠ str "inherit" := by decide
      exact apart (List.mem_singleton.mp marker)
  subst own
  dsimp only at walk
  rw [if_pos rfl, beq_self_eq_true, inheritVars_unaddressed (fun _ member => member) (Nat.le_refl _) unmarked] at walk
  obtain ⟨collection', inherits, vars⟩ := Option.map_eq_some_iff.mp walk
  refine ⟨collection', [], inherits, by rw [vars, List.append_nil], ?_, ?_, List.nodup_nil⟩
  · rw [dataAt_nil, eq_comm, List.eq_nil_iff_forall_not_mem]
    exact fun data member => none (List.mem_map_of_mem (mem_dataAt.mp member))
  · intro entry ordinary
    simp only [List.not_mem_nil, false_iff, not_and, not_not]
    exact fun member => List.mem_append_left _ member

theorem inherits_other (other : ifname ≠ parent) : InheritsOnce config collection ifname parent := by
  have walk := @inherit_vars config collection ifname parent
  dsimp only at walk
  obtain ⟨added, same, copied⟩ := @inheritVars_other _ (markedVars collection ifname parent) (collection.iface parent).vars
    (Nat.le_refl _)
  rw [if_neg other, beq_false_of_ne other, same] at walk
  obtain ⟨collection', inherits, vars⟩ := Option.map_eq_some_iff.mp walk
  exact ⟨collection', added, inherits, vars, copied⟩

end

/-- Inheritance copies the parent once and ends just if no interface with an address inherits from itself. -/
theorem inherits_once (config : LifConfig) (collection : Collection) (ifname parent : Str) :
    InheritsOnce config collection ifname parent ↔
      (ifname = parent → str "address" ∉ lifDictKeys (collection.iface parent).vars) := by
  constructor
  · rintro ⟨collection', added, inherits, -, -⟩ rfl address
    have walk := @inherit_vars config collection ifname ifname
    have kept : str "address" ∈ lifDictKeys (markedVars collection ifname ifname) := by
      unfold markedVars lifDictAdd
      rw [lifDictKeys, List.map_append]
      exact List.mem_append_left _ address
    dsimp only at walk
    rw [if_pos rfl, beq_self_eq_true, inheritVars_walks rfl kept, inherits] at walk
    cases walk
  · intro none
    by_cases own : ifname = parent
    · exact inherits_self own (none own)
    · exact inherits_other own

def oneAddress : Collection :=
  lifInterfaceCollectionInit.write (str "eth0")
    (fun iface => { iface with vars := lifDictAdd iface.vars (str "address") (.address ⟨[10, 0, 0, 1], 24, .inet⟩) }) (fun _ => rfl)

theorem inherits_once_oneAddress :
    ¬ ∀ (config : LifConfig) (collection : Collection) (ifname parent : Str), InheritsOnce config collection ifname parent := by
  intro claim
  obtain ⟨collection', added, inherits, -⟩ := claim {} oneAddress (str "eth0") (str "eth0")
  have endless : (lifInterfaceCollectionInherit {} oneAddress (str "eth0") (str "eth0")).isNone = true := by decide +kernel
  rw [inherits] at endless
  cases endless

theorem ordinary_marked (vars added : LifDict VarData) (parent : VarData) :
    ordinary (lifDictAdd vars (str "inherit") parent ++ added) = ordinary vars ++ ordinary added := by
  unfold ordinary lifDictAdd
  rw [List.filter_append, List.filter_append, List.filter_cons_of_neg (by simp), List.filter_nil, List.append_nil]

theorem copied_again {vars vars' added added' parent : LifDict VarData} (first : Copied parent vars added)
    (kept : ∀ entry ∈ vars ++ added, entry ∈ vars') (second : Copied parent vars' added') {entry : Str × VarData}
    (member : entry ∈ added') : entry.1 = str "address" := by
  by_contra other
  obtain ⟨source, absent⟩ := (second.others entry other).mp member
  refine absent (kept entry (List.mem_append.mpr ?_))
  by_cases old : entry ∈ vars
  · exact Or.inl old
  · exact Or.inr ((first.others entry other).mpr ⟨source, old⟩)

/-- To inherit from another interface once more changes nothing but the markers just if that one has no address. -/
theorem inherits_again (config : LifConfig) (collection collection' : Collection) (ifname parent : Str) (other : ifname ≠ parent)
    (first : lifInterfaceCollectionInherit config collection ifname parent = some collection') :
    (∃ collection'', lifInterfaceCollectionInherit config collection' ifname parent = some collection'' ∧
        ordinary (collection''.iface ifname).vars = ordinary (collection'.iface ifname).vars) ↔
      str "address" ∉ lifDictKeys (collection.iface parent).vars := by
  obtain ⟨_, added, inherits, vars, copied⟩ := @inherits_other config collection _ _ other
  rw [first, Option.some_inj] at inherits
  subst inherits
  obtain ⟨collection'', added', second, vars', copied'⟩ := @inherits_other config collection' _ _ other
  rw [inherit_others first other] at copied'
  have again {entry : Str × VarData} (member : entry ∈ added') : entry.1 = str "address" := by
    refine copied_again copied (fun entry old => ?_) copied' member
    rw [← vars] at old
    exact List.mem_append_left _ old
  have grown : ordinary (collection''.iface ifname).vars = ordinary (collection'.iface ifname).vars ++ ordinary added' := by
    rw [vars']
    exact ordinary_marked ..
  have kept : ordinary added' = added' := by
    refine List.filter_eq_self.mpr fun entry member => ?_
    rw [again member]
    decide
  have none : added' = [] ↔ str "address" ∉ lifDictKeys (collection.iface parent).vars := by
    rw [← addresses_none, ← copied'.addresses, addresses_none]
    constructor
    · rintro rfl
      exact List.not_mem_nil
    · intro unaddressed
      rw [List.eq_nil_iff_forall_not_mem]
      intro entry member
      exact unaddressed (again member ▸ List.mem_map_of_mem member)
  rw [second, ← none]
  simp only [Option.some_inj, exists_eq_left', grown, kept, List.append_right_eq_self]

/-- An interface takes nothing more from `lo` the second time. -/
theorem inherits_again_lo : ∃ collection' collection'',
    lifInterfaceCollectionInherit {} lifInterfaceCollectionInit (str "eth0") (str "lo") = some collection' ∧
      lifInterfaceCollectionInherit {} collection' (str "eth0") (str "lo") = some collection'' ∧
      ordinary (collection''.iface (str "eth0")).vars = ordinary (collection'.iface (str "eth0")).vars := by
  have ends : (lifInterfaceCollectionInherit {} lifInterfaceCollectionInit (str "eth0") (str "lo")).isSome = true := by
    decide +kernel
  obtain ⟨collection', first⟩ := Option.isSome_iff_exists.mp ends
  obtain ⟨collection'', second, same⟩ :=
    (inherits_again {} lifInterfaceCollectionInit collection' (str "eth0") (str "lo") (by decide) first).mpr (by decide +kernel)
  exact ⟨collection', collection'', first, second, same⟩

theorem inherits_again_oneAddress :
    ¬ ∀ (config : LifConfig) (collection collection' : Collection) (ifname parent : Str), ifname ≠ parent →
      lifInterfaceCollectionInherit config collection ifname parent = some collection' →
      ∃ collection'', lifInterfaceCollectionInherit config collection' ifname parent = some collection'' ∧
        ordinary (collection''.iface ifname).vars = ordinary (collection'.iface ifname).vars := by
  intro claim
  have differs : ((lifInterfaceCollectionInherit {} oneAddress (str "eth1") (str "eth0")).bind fun collection =>
      lifInterfaceCollectionInherit {} collection (str "eth1") (str "eth0")).map
        (fun collection => ordinary (collection.iface (str "eth1")).vars) ≠
      (lifInterfaceCollectionInherit {} oneAddress (str "eth1") (str "eth0")).map
        fun collection => ordinary (collection.iface (str "eth1")).vars := by decide +kernel
  have ends : (lifInterfaceCollectionInherit {} oneAddress (str "eth1") (str "eth0")).isSome = true := by decide +kernel
  obtain ⟨collection', first⟩ := Option.isSome_iff_exists.mp ends
  obtain ⟨collection'', second, same⟩ := claim {} oneAddress collection' (str "eth1") (str "eth0") (by decide) first
  rw [first, Option.bind_some, second, Option.map_some, Option.map_some, same] at differs
  exact differs rfl

end Ifupdown
