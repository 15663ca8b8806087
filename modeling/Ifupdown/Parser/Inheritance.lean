import Ifupdown.Parser.Traced

/-! What inheritance leaves of an interface and of its parent. -/
namespace Ifupdown

theorem mem_lifDictAddOnce [DecidableEq α] {dict : LifDict α} {key : Str} {data : α} {entry : Str × α} :
    entry ∈ lifDictAddOnce dict key data ↔ entry ∈ dict ∨ entry = (key, data) := by
  unfold lifDictAddOnce lifDictAdd
  split
  · rename_i present
    constructor
    · exact Or.inl
    · intro h
      rcases h with old | rfl
      · exact old
      · exact present
  · simp

/-- What is copied stands behind what there was, and only addresses are copied a second time. -/
theorem inheritVars_added {self : Bool} {fuel : Nat} {vars rest vars' : LifDict VarData}
    (h : inheritVars self fuel vars rest = some vars') :
    ∃ added, vars' = vars ++ added ∧ (∀ entry ∈ rest, entry ∈ vars ∨ entry ∈ added) ∧
      ∀ entry ∈ added, entry ∈ rest ∧ (entry.1 ≠ str "address" → entry ∉ vars) := by
  induction fuel generalizing vars rest with
  | zero =>
    cases rest with
    | nil =>
      cases h
      exact ⟨[], by simp⟩
    | cons _ _ => cases h
  | succ fuel ih =>
    cases rest with
    | nil =>
      cases h
      exact ⟨[], by simp⟩
    | cons first rest =>
      obtain ⟨key, data⟩ := first
      unfold inheritVars at h
      dsimp only at h
      have step : ∃ new, (if key = str "address" then lifDictAdd vars key data else lifDictAddOnce vars key data) =
          vars ++ new ∧ ((key, data) ∈ vars ∨ (key, data) ∈ new) ∧
            ∀ entry ∈ new, entry = (key, data) ∧ (key ≠ str "address" → entry ∉ vars) := by
        by_cases address : key = str "address"
        · exact ⟨[(key, data)], by simp [address, lifDictAdd]⟩
        · by_cases present : (key, data) ∈ vars
          · exact ⟨[], by simp [address, lifDictAddOnce, present]⟩
          · exact ⟨[(key, data)], by simp [address, lifDictAddOnce, lifDictAdd, present]⟩
      obtain ⟨new, grown, copied, fresh⟩ := step
      rw [grown, List.drop_left] at h
      obtain ⟨added, same, covered, sources⟩ := ih h
      refine ⟨new ++ added, by rw [same, List.append_assoc], ?_, ?_⟩
      · intro entry member
        rcases List.mem_cons.mp member with rfl | later
        · exact copied.imp_right (List.mem_append_left _)
        · have seen := covered entry (by
            split
            · exact List.mem_append_left _ later
            · exact later)
          rw [List.mem_append] at seen ⊢
          tauto
      · intro entry member
        rcases List.mem_append.mp member with here | later
        · obtain ⟨rfl, unseen⟩ := fresh entry here
          exact ⟨List.mem_cons_self, unseen⟩
        · obtain ⟨source, unseen⟩ := sources entry later
          refine ⟨?_, fun other old => unseen other (List.mem_append_left _ old)⟩
          rw [List.mem_cons]
          split at source
          · exact (List.mem_append.mp source).elim Or.inr fun here => Or.inl (fresh entry here).1
          · exact Or.inr source

def asTemplate (config : LifConfig) (iface : LifInterface) : LifInterface :=
  { iface with isTemplate := iface.isTemplate || config.implicitTemplateConversion }

theorem inherit_added {config : LifConfig} {collection collection' : Collection} {ifname parent : Str}
    (h : lifInterfaceCollectionInherit config collection ifname parent = some collection') :
    ∃ added, (∀ entry ∈ (collection.iface parent).vars,
        entry ∈ lifDictAdd (collection.iface ifname).vars (str "inherit") (.text parent) ∨ entry ∈ added) ∧
      (∀ entry ∈ added, (entry ∈ (collection.iface parent).vars ∨ ifname = parent ∧ entry = (str "inherit", .text parent)) ∧
        (entry.1 ≠ str "address" → entry ∉ lifDictAdd (collection.iface ifname).vars (str "inherit") (.text parent))) ∧
      ∀ x, collection'.iface x =
        let before := if parent = x then asTemplate config (collection.iface x) else collection.iface x
        if ifname = x then
          { before with
            isBond := (collection.iface parent).isBond
            isBridge := (collection.iface parent).isBridge
            vars := lifDictAdd (collection.iface ifname).vars (str "inherit") (.text parent) ++ added }
        else before := by
  unfold lifInterfaceCollectionInherit at h
  have templates (x : Str) : (if config.implicitTemplateConversion = true then
      collection.write parent (fun iface => { iface with isTemplate := true }) (fun _ => rfl)
      else collection).iface x =
        if parent = x then asTemplate config (collection.iface x) else collection.iface x := by
    by_cases implicit : config.implicitTemplateConversion = true
    · rw [if_pos implicit, iface_write, asTemplate, implicit, Bool.or_true]
    · have same : asTemplate config (collection.iface x) = collection.iface x := by
        rw [asTemplate, Bool.eq_false_iff.mpr implicit, Bool.or_false]
      rw [if_neg implicit, same, ite_self]
  revert h templates
  generalize (if config.implicitTemplateConversion = true then
      collection.write parent (fun iface => { iface with isTemplate := true }) (fun _ => rfl)
      else collection) = converted
  intro h templates
  have vars_ (x : Str) : (converted.iface x).vars = (collection.iface x).vars := by
    rw [templates]
    split <;> rfl
  have bond (x : Str) : (converted.iface x).isBond = (collection.iface x).isBond := by
    rw [templates]
    split <;> rfl
  have bridge (x : Str) : (converted.iface x).isBridge = (collection.iface x).isBridge := by
    rw [templates]
    split <;> rfl
  obtain ⟨vars, walked, rfl⟩ := Option.map_eq_some_iff.mp h
  obtain ⟨added, same, covered, sources⟩ := inheritVars_added walked
  simp only [iface_write, if_true, vars_] at same covered sources
  refine ⟨added, fun entry member => covered entry ?_, fun entry member => ?_, fun x => ?_⟩
  · split
    · exact List.mem_append_left _ member
    · rw [vars_]
      exact member
  · obtain ⟨source, unseen⟩ := sources entry member
    refine ⟨?_, unseen⟩
    split at source
    · rename_i own
      exact (List.mem_append.mp source).imp_right fun marker => ⟨own, List.mem_singleton.mp marker⟩
    · rw [vars_] at source
      exact Or.inl source
  · rw [same]
    simp only [iface_write, ← templates]
    by_cases own : ifname = x
    · subst own
      by_cases self : ifname = parent
      · subst self
        simp [bond, bridge]
      · simp [self, bond, bridge]
    · simp [own]

theorem inherit_iface {config : LifConfig} {collection collection' : Collection} {ifname parent : Str}
    (h : lifInterfaceCollectionInherit config collection ifname parent = some collection') :
    ∃ vars, (∀ entry, entry ∈ vars ↔ entry ∈ (collection.iface ifname).vars ∨
        entry = (str "inherit", .text parent) ∨ entry ∈ (collection.iface parent).vars) ∧
      ∀ x, collection'.iface x =
        let before := if parent = x then asTemplate config (collection.iface x) else collection.iface x
        if ifname = x then
          { before with
            isBond := (collection.iface parent).isBond
            isBridge := (collection.iface parent).isBridge
            vars := vars }
        else before := by
  obtain ⟨added, covered, sources, after⟩ := inherit_added h
  refine ⟨_, fun entry => ?_, after⟩
  have marked : entry ∈ lifDictAdd (collection.iface ifname).vars (str "inherit") (.text parent) ↔
      entry ∈ (collection.iface ifname).vars ∨ entry = (str "inherit", .text parent) := by
    simp [lifDictAdd]
  rw [List.mem_append, marked]
  constructor
  · intro member
    rcases member with (old | marker) | new
    · exact Or.inl old
    · exact Or.inr (Or.inl marker)
    · rcases (sources entry new).1 with copied | ⟨-, marker⟩
      · exact Or.inr (Or.inr copied)
      · exact Or.inr (Or.inl marker)
  · intro member
    rcases member with old | marker | copied
    · exact Or.inl (Or.inl old)
    · exact Or.inl (Or.inr marker)
    · exact (covered entry copied).imp_left marked.mp

theorem inherit_others {config : LifConfig} {collection collection' : Collection} {ifname parent x : Str}
    (h : lifInterfaceCollectionInherit config collection ifname parent = some collection') (other : ifname ≠ x) :
    (collection'.iface x).vars = (collection.iface x).vars := by
  obtain ⟨vars, -, after⟩ := inherit_iface h
  rw [after]
  dsimp only
  rw [if_neg other]
  split <;> rfl

end Ifupdown
