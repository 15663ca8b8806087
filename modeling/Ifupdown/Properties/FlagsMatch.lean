import Ifupdown.Parser.Inheritance

/-! The bridge and bond flags of an interface and the variables that they stand for. -/
namespace Ifupdown

inductive Kind where
  | bridge | bond
  deriving DecidableEq

def Kind.flag : Kind → LifInterface → Bool
  | .bridge, iface => iface.isBridge
  | .bond, iface => iface.isBond

def Kind.marks : Kind → Str × VarData → Bool
  | .bridge, (key, data) => key == str "bridge-ports" || (key == str "use" && data == .text (str "bridge"))
  | .bond, (key, data) => key == str "use" && data == .text (str "bond")

def Kind.marked (kind : Kind) (iface : LifInterface) : Bool := iface.vars.any kind.marks

def Kind.sets : Kind → Change → Bool
  | .bridge, .useExecutor executor => executor == str "bridge"
  | .bond, .useExecutor executor => executor == str "bond"
  | .bridge, .triple token _ => token == str "bridge-ports"
  | _, _ => false

section
variable {host : Host} {kind : Kind} {iface : LifInterface}

theorem any_addOnce {dict : LifDict VarData} {p : Str × VarData → Bool} {key : Str} {data : VarData} :
    (lifDictAddOnce dict key data).any p = (dict.any p || p (key, data)) := by
  rw [Bool.eq_iff_iff, List.any_eq_true, Bool.or_eq_true, List.any_eq_true]
  simp only [mem_lifDictAddOnce]
  constructor
  · intro ⟨entry, member, marked⟩
    rcases member with old | rfl
    · exact Or.inl ⟨entry, old, marked⟩
    · exact Or.inr marked
  · intro h
    rcases h with ⟨entry, old, marked⟩ | marked
    · exact ⟨entry, Or.inl old, marked⟩
    · exact ⟨_, Or.inr rfl, marked⟩

theorem any_delete {dict : LifDict VarData} {p : Str × VarData → Bool} {key : Str} (unmarked : ∀ data, p (key, data) = false) :
    (lifDictDelete dict key).any p = dict.any p := by
  induction dict with
  | nil => rfl
  | cons entry rest ih =>
    obtain ⟨name, data⟩ := entry
    unfold lifDictDelete
    split
    · rename_i same
      rw [List.any_cons, same, unmarked, Bool.false_or]
    · rw [List.any_cons, List.any_cons, ih]

theorem use_marks (executor : Str) : kind.marks (str "use", .text executor) = kind.sets (.useExecutor executor) := by
  have other : ¬ str "use" = str "bridge-ports" := by decide
  cases kind <;> rw [Bool.eq_iff_iff] <;> simp [Kind.marks, Kind.sets, other]

theorem useExecutor_marked (hostname : Option Str) (executor : Str) :
    kind.marked (lifInterfaceUseExecutor hostname iface executor) =
      (kind.marked iface || kind.sets (.useExecutor executor)) := by
  have learned (nodename : Str) : kind.marks (str "dhcp-hostname", .text nodename) = false := by
    cases kind <;> rfl
  rw [← use_marks]
  unfold lifInterfaceUseExecutor Kind.marked
  split
  · split
    · simp [lifDictAdd, any_addOnce, learned]
    · exact any_addOnce
  · exact any_addOnce

theorem useExecutor_flag (hostname : Option Str) (executor : Str) :
    kind.flag (lifInterfaceUseExecutor hostname iface executor) =
      (kind.flag iface || kind.sets (.useExecutor executor)) := by
  unfold lifInterfaceUseExecutor
  split
  · split <;> cases kind <;> rfl
  · cases kind <;> rfl

theorem addressAdd_marked (inetPton : InetPton) (address : Str) :
    kind.marked (lifInterfaceAddressAdd inetPton iface address) = kind.marked iface := by
  have static : kind.sets (.useExecutor (str "static")) = false := by cases kind <;> decide
  have unmarked (addr : LifAddress) : kind.marks (str "address", .address addr) = false := by cases kind <;> rfl
  unfold lifInterfaceAddressAdd
  split
  · rfl
  · have used : kind.marked (lifInterfaceUseExecutor none iface (str "static")) = _ := useExecutor_marked none (str "static")
    rw [static, Bool.or_false] at used
    rw [← used]
    simp [Kind.marked, lifDictAdd, unmarked]

theorem finalize_marked (inetPton : InetPton) : kind.marked (lifInterfaceFinalize inetPton iface) = kind.marked iface := by
  have netmask (data : VarData) : kind.marks (str "netmask", data) = false := by cases kind <;> rfl
  have address (data : VarData) : kind.marks (str "address", data) = false := by cases kind <;> rfl
  unfold lifInterfaceFinalize Kind.marked
  rw [any_delete netmask, List.any_map]
  congr 1
  funext entry
  obtain ⟨key, data⟩ := entry
  dsimp only [Function.comp_apply]
  split
  · rename_i same
    rw [same, address, address]
  · rfl

/-- The changes that set the flag are those that add such a variable. -/
theorem change_marked {step : Change} {ifname : Str} (made : (Edit.change ifname step).Made) :
    kind.marked (step.apply host iface) = (kind.marked iface || kind.sets step) := by
  have added (key : Str) (data : VarData) : (lifDictAdd iface.vars key data).any kind.marks =
      (kind.marked iface || kind.marks (key, data)) := by
    simp [lifDictAdd, Kind.marked]
  have same : kind.marked iface = (kind.marked iface || false) := (Bool.or_false _).symm
  cases step with
  | useExecutor executor => exact useExecutor_marked _ executor
  | addressAdd address =>
    have unset : kind.sets (.addressAdd address) = false := by cases kind <;> rfl
    rw [Change.apply, addressAdd_marked, unset, Bool.or_false]
  | triple token value =>
    have word : (token == str "use") = false := by
      rw [beq_eq_false_iff_ne]
      intro same
      rw [same] at made
      exact made (by decide)
    rw [Change.apply, Kind.marked, added]
    cases kind <;> simp [Kind.marks, Kind.sets, word]
  | dictAdd key value =>
    have unmarked : kind.marks (key, .text value) = false := by
      rcases made with rfl | rfl <;> cases kind <;> rfl
    rw [Change.apply, Kind.marked, added, unmarked]
    cases kind <;> rfl
  | dictDelete key =>
    have unmarked (data : VarData) : kind.marks (key, data) = false := by
      obtain rfl : key = str "dhcp-hostname" := made
      cases kind <;> rfl
    rw [Change.apply, Kind.marked, any_delete unmarked]
    cases kind <;> exact same
  | finalize =>
    rw [Change.apply, finalize_marked]
    cases kind <;> exact same
  | markAuto | markTemplate | noDefaults | configError => cases kind <;> exact same

theorem change_flag (step : Change) : kind.flag (step.apply host iface) = (kind.flag iface || kind.sets step) := by
  have same : kind.flag iface = (kind.flag iface || false) := (Bool.or_false _).symm
  cases step with
  | useExecutor executor => exact useExecutor_flag _ executor
  | addressAdd address =>
    have static : kind.sets (.useExecutor (str "static")) = false := by cases kind <;> decide
    have used : kind.flag (lifInterfaceUseExecutor none iface (str "static")) = _ := useExecutor_flag none (str "static")
    rw [static] at used
    rw [Change.apply]
    unfold lifInterfaceAddressAdd
    split
    · cases kind <;> exact same
    · cases kind <;> exact used
  | triple token value =>
    cases kind with
    | bridge => rfl
    | bond => exact same
  | dictAdd | dictDelete | markAuto | markTemplate | noDefaults | configError | finalize => cases kind <;> exact same

end

def Kind.SetsAt (kind : Kind) (x : Str) (collection : Collection) : Edit → Prop
  | .find _ => False
  | .change ifname step => ifname = x ∧ kind.sets step = true
  | .inherit ifname parent => ifname = x ∧ kind.flag (collection.iface parent) = true

/-- The edit gives `x` the unset flag of a parent, when it or the parent has such a variable. -/
def Kind.DropsAt (kind : Kind) (x : Str) (collection : Collection) : Edit → Prop
  | .inherit ifname parent => ifname = x ∧ kind.flag (collection.iface parent) = false ∧
      (kind.marked (collection.iface x) = true ∨ kind.marked (collection.iface parent) = true)
  | _ => False

def Kind.SetAgain (kind : Kind) (host : Host) (x : Str) : Collection → List Edit → Prop
  | _, [] => False
  | collection, edit :: rest =>
    kind.SetsAt x collection edit ∨
      ∃ collection' ∈ edit.apply host collection, SetAgain kind host x collection' rest

/-- One of the edits drops the flag of `x`, and no later one sets it. -/
def Kind.Lost (kind : Kind) (host : Host) (x : Str) : Collection → List Edit → Prop
  | _, [] => False
  | collection, edit :: rest =>
    ∃ collection' ∈ edit.apply host collection,
      kind.DropsAt x collection edit ∧ ¬ kind.SetAgain host x collection' rest ∨ Lost kind host x collection' rest

def Kind.Sound (kind : Kind) (collection : Collection) : Prop :=
  ∀ x, kind.flag (collection.iface x) = true → kind.marked (collection.iface x) = true

section
variable {host : Host} {kind : Kind} {collection collection' : Collection}

theorem inherit_flag {ifname parent : Str} (h : (Edit.inherit ifname parent).apply host collection = some collection')
    (x : Str) : kind.flag (collection'.iface x) =
      if ifname = x then kind.flag (collection.iface parent) else kind.flag (collection.iface x) := by
  obtain ⟨vars, -, after⟩ := inherit_iface h
  rw [after]
  dsimp only
  split
  · cases kind <;> rfl
  · split <;> cases kind <;> rfl

theorem inherit_marked {ifname parent : Str} (h : (Edit.inherit ifname parent).apply host collection = some collection')
    (x : Str) : kind.marked (collection'.iface x) =
      (kind.marked (collection.iface x) || (decide (ifname = x) && kind.marked (collection.iface parent))) := by
  obtain ⟨vars, listed, after⟩ := inherit_iface h
  have marker : kind.marks (str "inherit", .text parent) = false := by cases kind <;> rfl
  rw [after]
  dsimp only
  split
  · rename_i same
    subst same
    rw [Bool.eq_iff_iff]
    simp only [Kind.marked, List.any_eq_true, listed, decide_true, Bool.true_and, Bool.or_eq_true]
    constructor
    · intro ⟨entry, member, marked⟩
      rcases member with own | rfl | other
      · exact Or.inl ⟨entry, own, marked⟩
      · rw [marker] at marked
        cases marked
      · exact Or.inr ⟨entry, other, marked⟩
    · intro said
      rcases said with ⟨entry, own, marked⟩ | ⟨entry, other, marked⟩
      · exact ⟨entry, Or.inl own, marked⟩
      · exact ⟨entry, Or.inr (Or.inr other), marked⟩
  · rename_i other
    simp only [other, decide_false, Bool.false_and, Bool.or_false]
    split <;> rfl

theorem edit_sound {edit : Edit} (made : edit.Made) (h : edit.apply host collection = some collection')
    (sound : kind.Sound collection) : kind.Sound collection' := by
  intro x
  have before := sound x
  cases edit with
  | find ifname =>
    cases h
    rw [iface_collectionFind]
    exact before
  | change ifname step =>
    cases h
    rw [iface_write]
    split
    · rw [change_flag, change_marked made]
      simp only [Bool.or_eq_true]
      exact Or.imp_left before
    · exact before
  | inherit ifname parent =>
    rw [inherit_flag h, inherit_marked h]
    simp only [Bool.or_eq_true, Bool.and_eq_true, decide_eq_true_eq]
    split
    · rename_i same
      exact fun set => Or.inr ⟨same, sound parent set⟩
    · exact fun set => Or.inl (before set)

/-- What one edit does to the flag of an interface that has the variable. -/
theorem edit_flag {edit : Edit} (made : edit.Made) (h : edit.apply host collection = some collection')
    (x : Str) :
    (kind.marked (collection'.iface x) = true → kind.flag (collection'.iface x) = true) ↔
      ((kind.marked (collection.iface x) = true → kind.flag (collection.iface x) = true) ∨ kind.SetsAt x collection edit) ∧
        ¬ kind.DropsAt x collection edit := by
  cases edit with
  | find ifname =>
    cases h
    rw [iface_collectionFind]
    simp [Kind.SetsAt, Kind.DropsAt]
  | change ifname step =>
    cases h
    rw [iface_write]
    simp only [Kind.SetsAt, Kind.DropsAt, not_false_eq_true, and_true]
    split
    · rename_i same
      rw [change_flag, change_marked made]
      simp only [Bool.or_eq_true, same, true_and]
      tauto
    · rename_i other
      simp [other]
  | inherit ifname parent =>
    rw [inherit_flag h, inherit_marked h]
    simp only [Kind.SetsAt, Kind.DropsAt, Bool.or_eq_true, Bool.and_eq_true, decide_eq_true_eq]
    by_cases same : ifname = x
    · rw [if_pos same]
      cases kind.flag (collection.iface parent) <;> simp +contextual [same]
    · simp [same]

/-- After a run of edits an interface has the flag for its variable just if the run has not lost it. -/
theorem edits_flag {edits : List Edit} (made : ∀ edit ∈ edits, edit.Made)
    (h : applyEdits host collection edits = some collection') (x : Str) :
    (kind.marked (collection'.iface x) = true → kind.flag (collection'.iface x) = true) ↔
      ((kind.marked (collection.iface x) = true → kind.flag (collection.iface x) = true) ∨
        kind.SetAgain host x collection edits) ∧ ¬ kind.Lost host x collection edits := by
  induction edits generalizing collection with
  | nil =>
    cases h
    simp [Kind.SetAgain, Kind.Lost]
  | cons edit rest ih =>
    obtain ⟨first, later⟩ := List.forall_mem_cons.mp made
    rw [applyEdits_cons] at h
    obtain ⟨next, step, h⟩ := Option.bind_eq_some_iff.mp h
    rw [ih later h, edit_flag first step x]
    simp only [Kind.SetAgain, Kind.Lost, step, Option.mem_some_iff, exists_eq_left']
    tauto

theorem init_flag (kind : Kind) (x : Str) :
    kind.marked (lifInterfaceCollectionInit.iface x) = false ∧ kind.flag (lifInterfaceCollectionInit.iface x) = false := by
  have fresh : kind.marked (lifInterfaceInit x) = false ∧ kind.flag (lifInterfaceInit x) = false := by
    unfold lifInterfaceInit
    dsimp only
    split
    · simp only [useExecutor_marked, useExecutor_flag]
      cases kind <;> exact ⟨rfl, rfl⟩
    · simp only [useExecutor_marked, useExecutor_flag]
      cases kind <;> exact ⟨rfl, rfl⟩
  rw [lifInterfaceCollectionInit, iface_write]
  split
  · rename_i lo
    subst lo
    cases kind <;> decide
  · exact fresh

end

theorem bridge_marked (iface : LifInterface) : Kind.bridge.marked iface = true ↔
    (∃ data, (str "bridge-ports", data) ∈ iface.vars) ∨ (str "use", .text (str "bridge")) ∈ iface.vars := by
  simp only [Kind.marked, List.any_eq_true, Kind.marks, Bool.or_eq_true, Bool.and_eq_true, beq_iff_eq]
  constructor
  · intro ⟨⟨key, data⟩, member, marked⟩
    rcases marked with rfl | ⟨rfl, rfl⟩
    · exact Or.inl ⟨data, member⟩
    · exact Or.inr member
  · intro h
    rcases h with ⟨data, member⟩ | member
    · exact ⟨_, member, Or.inl rfl⟩
    · exact ⟨_, member, Or.inr ⟨rfl, rfl⟩⟩

theorem bond_marked (iface : LifInterface) :
    Kind.bond.marked iface = true ↔ (str "use", .text (str "bond")) ∈ iface.vars := by
  simp only [Kind.marked, List.any_eq_true, Kind.marks, Bool.and_eq_true, beq_iff_eq]
  constructor
  · intro ⟨⟨key, data⟩, member, marked⟩
    obtain ⟨rfl, rfl⟩ := marked
    exact member
  · exact fun member => ⟨_, member, rfl, rfl⟩

/-- The flags match the variables just if no inheritance drops a flag for good. -/
theorem flags_match (host : Host) (fuel : Nat) (filename : Str) (state : ParseState)
    (parsed : lifInterfaceFileParse host fuel {} filename = some (true, state)) :
    (∀ entry ∈ state.collection.entries,
      (entry.2.isBridge = true ↔
        (∃ data, (str "bridge-ports", data) ∈ entry.2.vars) ∨ (str "use", .text (str "bridge")) ∈ entry.2.vars) ∧
      (entry.2.isBond = true ↔ (str "use", .text (str "bond")) ∈ entry.2.vars)) ↔
    ∀ entry ∈ state.collection.entries, ∀ kind : Kind,
      ¬ kind.Lost host entry.1 lifInterfaceCollectionInit state.edits := by
  obtain ⟨reached, made⟩ := lifInterfaceFileParse_traced traced_start parsed
  have exactly (kind : Kind) (x : Str) : (kind.flag (state.collection.iface x) = true ↔
      kind.marked (state.collection.iface x) = true) ↔ ¬ kind.Lost host x lifInterfaceCollectionInit state.edits := by
    obtain ⟨unsaid, unset⟩ := init_flag kind x
    have start : kind.Sound lifInterfaceCollectionInit := by
      intro y set
      rw [(init_flag kind y).2] at set
      cases set
    have sound : kind.Sound state.collection :=
      applyEdits_invariant made reached start fun _ _ _ made step sound => edit_sound made step sound
    have kept : (kind.marked (state.collection.iface x) = true → kind.flag (state.collection.iface x) = true) ↔ _ :=
      edits_flag made reached x
    simp only [unsaid, Bool.false_eq_true, false_implies, true_or, true_and] at kept
    rw [← kept]
    exact ⟨fun same => same.mpr, fun flagged => ⟨sound x, flagged⟩⟩
  refine forall₂_congr fun entry member => ?_
  rw [← bridge_marked, ← bond_marked, ← iface_of_mem member]
  constructor
  · intro both kind
    obtain ⟨bridge, bond⟩ := both
    cases kind with
    | bridge => exact (exactly .bridge entry.1).mp bridge
    | bond => exact (exactly .bond entry.1).mp bond
  · intro kept
    exact ⟨(exactly .bridge entry.1).mpr (kept .bridge), (exactly .bond entry.1).mpr (kept .bond)⟩

instance (kind : Kind) (x : Str) (collection : Collection) : (edit : Edit) → Decidable (kind.SetsAt x collection edit)
  | .find _ => inferInstanceAs (Decidable False)
  | .change _ _ => inferInstanceAs (Decidable (_ ∧ _))
  | .inherit _ _ => inferInstanceAs (Decidable (_ ∧ _))

instance (kind : Kind) (x : Str) (collection : Collection) : (edit : Edit) → Decidable (kind.DropsAt x collection edit)
  | .find _ => inferInstanceAs (Decidable False)
  | .change _ _ => inferInstanceAs (Decidable False)
  | .inherit _ _ => inferInstanceAs (Decidable (_ ∧ _ ∧ _))

instance decidableSetAgain (kind : Kind) (host : Host) (x : Str) :
    (collection : Collection) → (edits : List Edit) → Decidable (kind.SetAgain host x collection edits)
  | _, [] => inferInstanceAs (Decidable False)
  | collection, edit :: rest =>
    have (collection : Collection) : Decidable (kind.SetAgain host x collection rest) :=
      decidableSetAgain kind host x collection rest
    inferInstanceAs (Decidable (_ ∨ ∃ collection' ∈ edit.apply host collection, _))

instance decidableLost (kind : Kind) (host : Host) (x : Str) :
    (collection : Collection) → (edits : List Edit) → Decidable (kind.Lost host x collection edits)
  | _, [] => inferInstanceAs (Decidable False)
  | collection, edit :: rest =>
    have (collection : Collection) : Decidable (kind.Lost host x collection rest) :=
      decidableLost kind host x collection rest
    inferInstanceAs (Decidable (∃ collection' ∈ edit.apply host collection, _ ∧ _ ∨ _))

/-- A bridge that gets its ports from a template. -/
def templateBridge : Host := oneFile "template ports
bridge-ports eth0 eth1
iface br0
inherit ports
"

theorem flags_match_templateBridge :
    lifInterfaceFileParse templateBridge 2 {} (str "interfaces") = some (true, templateBridge.read) ∧
    ∀ entry ∈ templateBridge.read.collection.entries,
    (entry.2.isBridge = true ↔
      (∃ data, (str "bridge-ports", data) ∈ entry.2.vars) ∨ (str "use", .text (str "bridge")) ∈ entry.2.vars) ∧
    (entry.2.isBond = true ↔ (str "use", .text (str "bond")) ∈ entry.2.vars) := by
  have parsed : lifInterfaceFileParse templateBridge 2 {} (str "interfaces") = some (true, templateBridge.read) :=
    read_parsed (by decide +kernel)
  have kept : ∀ kind : Kind, ∀ entry ∈ templateBridge.read.collection.entries,
      ¬ kind.Lost templateBridge entry.1 lifInterfaceCollectionInit templateBridge.read.edits := by
    intro kind
    cases kind <;> decide +kernel
  exact ⟨parsed, (flags_match templateBridge 2 (str "interfaces") templateBridge.read parsed).mpr
    fun entry member kind => kept kind entry member⟩

/-- A bridge with a second stanza. -/
def mergedBridge : Host := oneFile "iface br0
bridge-ports eth0 eth1
iface br0
address 2001:db8::1/64
"

theorem flags_differ :
    ¬ ∀ (host : Host) (fuel : Nat) (filename : Str) (state : ParseState),
      lifInterfaceFileParse host fuel {} filename = some (true, state) →
      ∀ entry ∈ state.collection.entries,
        (entry.2.isBridge = true ↔
          (∃ data, (str "bridge-ports", data) ∈ entry.2.vars) ∨ (str "use", .text (str "bridge")) ∈ entry.2.vars) ∧
        (entry.2.isBond = true ↔ (str "use", .text (str "bond")) ∈ entry.2.vars) := by
  intro claim
  have matches_ := claim mergedBridge 2 (str "interfaces") mergedBridge.read (read_parsed (by decide +kernel))
  have lost : ∃ entry ∈ mergedBridge.read.collection.entries, entry.2.isBridge = false ∧
      (str "use", .text (str "bridge")) ∈ entry.2.vars := by decide +kernel
  obtain ⟨entry, member, unset, used⟩ := lost
  have set := (matches_ entry member).1.mpr (Or.inr used)
  rw [unset] at set
  cases set

end Ifupdown
