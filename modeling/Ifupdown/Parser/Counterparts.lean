import Mathlib.Data.List.Forall2
import Ifupdown.Parser.Addresses
import Ifupdown.Parser.Agreement

/-! Runs of edits that differ in the values of some variables. -/
namespace Ifupdown

/-- The edits are the same but for the value of a key of an interface. -/
inductive Counterpart (rel : Str → Str → Str → Str → Prop) : Edit → Edit → Prop
  | same (edit : Edit) : Counterpart rel edit edit
  | value {ifname key value value' : Str} : rel ifname key value value' →
    Counterpart rel (.change ifname (.triple key value)) (.change ifname (.triple key value'))

/-- What the handlers ask of an interface, and whether it can inherit from itself. -/
structure LifInterface.Alike (iface iface' : LifInterface) : Prop where
  isTemplate : iface'.isTemplate = iface.isTemplate
  noDefaults : iface'.noDefaults = iface.noDefaults
  addressed : dataAt iface'.vars (str "address") = [] ↔ dataAt iface.vars (str "address") = []

def Collection.Alike (collection collection' : Collection) : Prop := ∀ x, (collection.iface x).Alike (collection'.iface x)

section
variable {host : Host} {iface iface' : LifInterface} {collection collection' : Collection} {ifname : Str}
  {rel : Str → Str → Str → Str → Prop} {edit edit' : Edit} {edits edits' : List Edit}

theorem useExecutor_asks (hostname : Option Str) (executor : Str) :
    (lifInterfaceUseExecutor hostname iface executor).isTemplate = iface.isTemplate ∧
      (lifInterfaceUseExecutor hostname iface executor).noDefaults = iface.noDefaults := by
  obtain ⟨_, _, _, same⟩ := lifInterfaceUseExecutor_frame hostname iface executor
  rw [same]
  exact ⟨rfl, rfl⟩

theorem addressAdd_asks (address : Str) :
    (lifInterfaceAddressAdd host.inetPton iface address).isTemplate = iface.isTemplate ∧
      (lifInterfaceAddressAdd host.inetPton iface address).noDefaults = iface.noDefaults := by
  obtain ⟨_, _, _, same⟩ := lifInterfaceAddressAdd_frame host.inetPton iface address
  rw [same]
  exact ⟨rfl, rfl⟩

theorem value_alike {key value value' : Str} (made : (Edit.change ifname (.triple key value)).Made) (alike : iface.Alike iface') :
    ((Change.triple key value).apply host iface).Alike ((Change.triple key value').apply host iface') := by
  have other : key ≠ str "address" := by
    rintro rfl
    exact made (by decide)
  refine ⟨alike.isTemplate, alike.noDefaults, ?_⟩
  rw [Change.apply, Change.apply, dataAt_add, dataAt_add, if_neg other, if_neg other, List.append_nil, List.append_nil]
  exact alike.addressed

theorem change_alike {step : Change} (made : (Edit.change ifname step).Made) (alike : iface.Alike iface') :
    (step.apply host iface).Alike (step.apply host iface') := by
  have ⟨template, defaults, addressed⟩ := alike
  have used (hostname : Option Str) (executor : Str) :
      (lifInterfaceUseExecutor hostname iface executor).Alike (lifInterfaceUseExecutor hostname iface' executor) := by
    have asks := @useExecutor_asks iface hostname executor
    have asks' := @useExecutor_asks iface' hostname executor
    refine ⟨by rw [asks'.1, asks.1, template], by rw [asks'.2, asks.2, defaults], ?_⟩
    rw [useExecutor_data _ _ (by decide), useExecutor_data _ _ (by decide), if_neg fun dhcp => absurd dhcp.1 (by decide),
      List.append_nil, List.append_nil]
    exact addressed
  have kept {key : Str} {data : VarData} (other : key ≠ str "address") (vars : LifDict VarData) :
      dataAt (lifDictAdd vars key data) (str "address") = dataAt vars (str "address") := by
    rw [dataAt_add, if_neg other, List.append_nil]
  cases step with
  | useExecutor executor => exact used _ executor
  | addressAdd address =>
    have asks := @addressAdd_asks host iface address
    have asks' := @addressAdd_asks host iface' address
    refine ⟨asks'.1.trans (template.trans asks.1.symm), asks'.2.trans (defaults.trans asks.2.symm), ?_⟩
    rw [Change.apply, Change.apply, addressAdd_data _ _ (by decide), addressAdd_data _ _ (by decide), List.append_eq_nil_iff,
      List.append_eq_nil_iff, addressed]
  | finalize =>
    refine ⟨template, defaults, ?_⟩
    rw [Change.apply, Change.apply, finalize_data, finalize_data, if_pos rfl, if_pos rfl, List.map_eq_nil_iff, List.map_eq_nil_iff]
    exact addressed
  | triple key value => exact value_alike made alike
  | dictAdd key value =>
    have other : key ≠ str "address" := by
      rintro rfl
      rcases made with same | same <;> exact absurd same (by decide)
    exact ⟨template, defaults, by rw [Change.apply, Change.apply, kept other, kept other]; exact addressed⟩
  | dictDelete key =>
    have other : key ≠ str "address" := by
      rintro rfl
      have apart : str "address" ≠ str "dhcp-hostname" := by decide
      exact apart made
    refine ⟨template, defaults, ?_⟩
    rw [Change.apply, Change.apply, dataAt_delete, dataAt_delete, if_neg other, if_neg other]
    exact addressed
  | markAuto => exact ⟨template, defaults, addressed⟩
  | markTemplate => exact ⟨rfl, defaults, addressed⟩
  | noDefaults => exact ⟨template, rfl, addressed⟩
  | configError => exact ⟨template, defaults, addressed⟩

theorem inherit_alike {parent : Str} (alike : collection.Alike collection') :
    Option.Rel Collection.Alike (lifInterfaceCollectionInherit host.config collection ifname parent)
      (lifInterfaceCollectionInherit host.config collection' ifname parent) := by
  have ends : lifInterfaceCollectionInherit host.config collection ifname parent = none ↔
      lifInterfaceCollectionInherit host.config collection' ifname parent = none := by
    rw [inherit_none, inherit_none, Ne, (alike parent).addressed.symm]
  rcases inherits : lifInterfaceCollectionInherit host.config collection ifname parent with _ | next <;>
    rcases inherits' : lifInterfaceCollectionInherit host.config collection' ifname parent with _ | next'
  · exact .none
  · rw [inherits, inherits'] at ends
    cases ends.mp rfl
  · rw [inherits, inherits'] at ends
    cases ends.mpr rfl
  refine .some fun x => ?_
  obtain ⟨added, -, -, after⟩ := inherit_added inherits
  obtain ⟨added', -, -, after'⟩ := inherit_added inherits'
  have flags : (next'.iface x).isTemplate = (next.iface x).isTemplate ∧ (next'.iface x).noDefaults = (next.iface x).noDefaults := by
    rw [after, after']
    dsimp only
    split <;> split <;> simp [asTemplate, (alike x).isTemplate, (alike x).noDefaults]
  refine ⟨flags.1, flags.2, ?_⟩
  by_cases own : ifname = x
  · subst own
    rw [inherit_after inherits (by decide), inherit_after inherits' (by decide), if_pos rfl, if_pos rfl, List.append_eq_nil_iff,
      List.append_eq_nil_iff, (alike _).addressed, (alike _).addressed]
  · rw [inherit_others inherits own, inherit_others inherits' own]
    exact (alike x).addressed

/-- Counterparts keep collections alike, and either both end or none does. -/
theorem counterpart_alike (counterpart : Counterpart rel edit edit') (made : edit.Made) (alike : collection.Alike collection') :
    Option.Rel Collection.Alike (edit.apply host collection) (edit'.apply host collection') := by
  have written {x : Str} {step step' : Change}
      (own : (step.apply host (collection.iface x)).Alike (step'.apply host (collection'.iface x))) :
      Option.Rel Collection.Alike ((Edit.change x step).apply host collection) ((Edit.change x step').apply host collection') := by
    refine .some fun y => ?_
    rw [iface_write, iface_write]
    split
    · rename_i here
      exact here ▸ own
    · exact alike y
  cases counterpart with
  | value related => exact written (value_alike made (alike _))
  | same =>
    cases edit with
    | find name =>
      refine .some fun x => ?_
      rw [iface_collectionFind, iface_collectionFind]
      exact alike x
    | change name step => exact written (change_alike made (alike _))
    | inherit name parent => exact inherit_alike alike

end

/-- Collections that counterparts have led to from one start. -/
structure Parallel (host : Host) (rel : Str → Str → Str → Str → Prop) (start edited edited' : Edited) : Prop where
  alike : Collection.Alike edited.1 edited'.1
  made : ∃ made made', edited.2 = start.2 ++ made ∧ edited'.2 = start.2 ++ made' ∧ applyEdits host start.1 made = some edited.1 ∧
    applyEdits host start.1 made' = some edited'.1 ∧ List.Forall₂ (Counterpart rel) made made' ∧ ∀ edit ∈ made, edit.Made

section
variable {host : Host} {rel : Str → Str → Str → Str → Prop} {start edited edited' : Edited} {edit edit' : Edit}

theorem parallel_start : Parallel host rel start start start :=
  ⟨fun _ => ⟨rfl, rfl, Iff.rfl⟩, [], [], by simp, by simp, rfl, rfl, .nil, by simp⟩

theorem Parallel.step (parallel : Parallel host rel start edited edited') (counterpart : Counterpart rel edit edit')
    (made : edit.Made) : Option.Rel (Parallel host rel start)
      ((edit.apply host edited.1).map fun collection => (collection, edited.2 ++ [edit]))
      ((edit'.apply host edited'.1).map fun collection => (collection, edited'.2 ++ [edit'])) := by
  obtain ⟨alike, first, first', own, own', reached, reached', counterparts, legal⟩ := parallel
  have both : Option.Rel Collection.Alike (edit.apply host edited.1) (edit'.apply host edited'.1) :=
    counterpart_alike counterpart made alike
  revert both
  rcases applied : edit.apply host edited.1 with _ | next <;> rcases applied' : edit'.apply host edited'.1 with _ | next' <;>
    intro both <;> cases both
  · exact .none
  · rename_i alike
    refine .some ⟨alike, first ++ [edit], first' ++ [edit'], ?_, ?_, ?_, ?_, ?_, ?_⟩
    · rw [own, List.append_assoc]
    · rw [own', List.append_assoc]
    · rw [applyEdits_snoc, reached, Option.bind_some, applied]
    · rw [applyEdits_snoc, reached', Option.bind_some, applied']
    · exact List.rel_append counterparts (.cons counterpart .nil)
    · exact List.forall_mem_append.mpr ⟨legal, List.forall_mem_singleton.mpr made⟩

theorem parallel_uniform : Uniform host (Parallel host rel start) where
  flags x parallel := ⟨(parallel.alike x).isTemplate, (parallel.alike x).noDefaults⟩
  edit made parallel := parallel.step (.same _) made

end

structure LifInterface.Agrees (related : VarData → VarData → Prop) (iface iface' : LifInterface) : Prop where
  addresses : dataAt iface'.vars (str "address") = dataAt iface.vars (str "address")
  netmasks : List.Forall₂ related (dataAt iface.vars (str "netmask")) (dataAt iface'.vars (str "netmask"))

/-- The data are the same, or those of a netmask that another text has taken the place of. -/
def Exchanged (value value' : Str) (exchanged : Prop) (data data' : VarData) : Prop :=
  data' = data ∨ exchanged ∧ data = .text value ∧ data' = .text value'

/-- The interfaces that may hold that netmask, once the edit has been made. -/
def Edit.carriers (carriers : List Str) : Edit → List Str
  | .inherit ifname parent => if parent ∈ carriers then ifname :: carriers else carriers
  | _ => carriers

def Without (value value' : Str) (masks : List Str) : Prop := value ∉ masks ∧ value' ∉ masks

instance (value value' : Str) (masks : List Str) : Decidable (Without value value' masks) := inferInstanceAs (Decidable (_ ∧ _))

/-- Where one interface of an inheritance holds the netmask, the two have no other one with either text. -/
def Edit.Leaves (value value' : Str) (carriers : List Str) (collection : Collection) : Edit → Prop
  | .inherit ifname parent =>
    let own := (collection.iface ifname).netmasks
    let copied := (collection.iface parent).netmasks
    ifname = parent ∨
      (parent ∈ carriers → value ∈ copied → copied.count value = 1 ∧ value' ∉ copied ∧ Without value value' own) ∧
        (ifname ∈ carriers → value ∈ own → Without value value' copied)
  | _ => True

instance (value value' : Str) (carriers : List Str) (collection : Collection) (edit : Edit) :
    Decidable (edit.Leaves value value' carriers collection) :=
  match edit with
  | .inherit _ _ => inferInstanceAs (Decidable (_ ∨ _ ∧ _))
  | .find _ | .change _ _ => .isTrue trivial

def NetmaskStays (host : Host) (value value' : Str) : List Str → Collection → List Edit → Prop
  | _, _, [] => True
  | carriers, collection, edit :: rest => edit.Leaves value value' carriers collection ∧
    match edit.apply host collection with
    | some next => NetmaskStays host value value' (edit.carriers carriers) next rest
    | none => True

instance decidableStays (host : Host) (value value' : Str) : (carriers : List Str) → (collection : Collection) →
    (edits : List Edit) → Decidable (NetmaskStays host value value' carriers collection edits)
  | _, _, [] => .isTrue trivial
  | carriers, collection, edit :: rest => by
    have later : Decidable (match edit.apply host collection with
        | some next => NetmaskStays host value value' (edit.carriers carriers) next rest
        | none => True) :=
      match edit.apply host collection with
      | some next => decidableStays host value value' (edit.carriers carriers) next rest
      | none => .isTrue trivial
    exact inferInstanceAs (Decidable (_ ∧ _))

section
variable {host : Host} {iface iface' : LifInterface} {collection collection' next next' : Collection} {ifname parent : Str}
  {rel : Str → Str → Str → Str → Prop} {edit edit' : Edit} {edits edits' : List Edit} {related : VarData → VarData → Prop}

theorem agrees_of_data (agrees : iface.Agrees related iface') {after after' : LifInterface}
    (same : ∀ key, key = str "address" ∨ key = str "netmask" → dataAt after.vars key = dataAt iface.vars key ∧
      dataAt after'.vars key = dataAt iface'.vars key) : after.Agrees related after' := by
  refine ⟨?_, ?_⟩
  · rw [(same _ (Or.inl rfl)).1, (same _ (Or.inl rfl)).2]
    exact agrees.addresses
  · rw [(same _ (Or.inr rfl)).1, (same _ (Or.inr rfl)).2]
    exact agrees.netmasks

theorem agrees_netmask (agrees : iface.Agrees related iface')
    (counts : ∀ data data', related data data' → countSetBits host.inetPton data'.value = countSetBits host.inetPton data.value)
    (addr : LifAddress) : determineInterfaceNetmask host.inetPton iface' addr = determineInterfaceNetmask host.inetPton iface addr := by
  unfold determineInterfaceNetmask
  rw [lifDictFind_head, lifDictFind_head]
  have netmasks := agrees.netmasks
  revert netmasks
  generalize dataAt iface.vars (str "netmask") = masks, dataAt iface'.vars (str "netmask") = masks'
  intro netmasks
  cases netmasks with
  | nil => rfl
  | cons head _ => exact counts _ _ head

theorem finalize_agrees (agrees : iface.Agrees related iface')
    (counts : ∀ data data', related data data' → countSetBits host.inetPton data'.value = countSetBits host.inetPton data.value) :
    (lifInterfaceFinalize host.inetPton iface).Agrees related (lifInterfaceFinalize host.inetPton iface') := by
  have settles : finalizeAddress host.inetPton iface' = finalizeAddress host.inetPton iface := by
    funext data
    cases data with
    | text value => rfl
    | address addr => simp only [finalizeAddress, agrees_netmask agrees counts]
  refine ⟨?_, ?_⟩
  · rw [finalize_data, finalize_data, if_pos rfl, if_pos rfl, agrees.addresses, settles]
  · have tails (iface : LifInterface) : dataAt (lifInterfaceFinalize host.inetPton iface).vars (str "netmask") =
        (dataAt iface.vars (str "netmask")).tail := by rw [finalize_data, if_neg (by decide), if_pos rfl]
    have netmasks := agrees.netmasks
    rw [tails, tails]
    revert netmasks
    generalize dataAt iface.vars (str "netmask") = masks, dataAt iface'.vars (str "netmask") = masks'
    intro netmasks
    cases netmasks with
    | nil => exact .nil
    | cons _ later => exact later

theorem value_agrees {key value value' : Str} (agrees : iface.Agrees related iface')
    (made : (Edit.change ifname (.triple key value)).Made) (values : key = str "netmask" → related (.text value) (.text value')) :
    ((Change.triple key value).apply host iface).Agrees related ((Change.triple key value').apply host iface') := by
  have other : key ≠ str "address" := by
    rintro rfl
    exact made (by decide)
  refine ⟨?_, ?_⟩
  · rw [Change.apply, Change.apply, dataAt_add, dataAt_add, if_neg other, if_neg other, List.append_nil, List.append_nil]
    exact agrees.addresses
  · rw [Change.apply, Change.apply, dataAt_add, dataAt_add]
    refine List.rel_append agrees.netmasks ?_
    split
    · rename_i same
      exact .cons (values same) .nil
    · exact .nil

theorem change_agrees {step : Change} (agrees : iface.Agrees related iface') (made : (Edit.change ifname step).Made)
    (refl : ∀ data, related data data)
    (counts : ∀ data data', related data data' → countSetBits host.inetPton data'.value = countSetBits host.inetPton data.value) :
    (step.apply host iface).Agrees related (step.apply host iface') := by
  have light (light : (Edit.change ifname step).Light) : (step.apply host iface).Agrees related (step.apply host iface') :=
    agrees_of_data agrees fun _ which => ⟨light_data light which, light_data light which⟩
  cases step with
  | useExecutor | markAuto | markTemplate | noDefaults | configError => exact light trivial
  | finalize => exact finalize_agrees agrees counts
  | triple key value => exact value_agrees agrees made fun _ => refl _
  | dictAdd key value =>
    refine light ?_
    rcases made with rfl | rfl <;> exact ⟨by decide, by decide⟩
  | dictDelete key =>
    obtain rfl : key = str "dhcp-hostname" := made
    exact light ⟨by decide, by decide⟩
  | addressAdd address =>
    refine ⟨?_, ?_⟩
    · rw [Change.apply, Change.apply, addressAdd_data _ _ (by decide), addressAdd_data _ _ (by decide), agrees.addresses]
    · have kept (iface : LifInterface) : dataAt (lifInterfaceAddressAdd host.inetPton iface address).vars (str "netmask") =
          dataAt iface.vars (str "netmask") := by
        rw [addressAdd_data _ _ (by decide), if_neg (by decide), List.append_nil]
      rw [Change.apply, Change.apply, kept, kept]
      exact agrees.netmasks

section
variable {value value' carrier : Str} {carriers : List Str} {exchanged : Prop} {known known' copied copied' : List VarData}

theorem exchanged_same (alike : List.Forall₂ (Exchanged value value' exchanged) known known')
    (same : exchanged → value' = value ∨ value ∉ known.map VarData.value) : known' = known := by
  induction alike with
  | nil => rfl
  | @cons data data' known known' head _ ih =>
    have rest := ih fun here => (same here).imp_right fun absent => by
      rw [List.map_cons, List.mem_cons, not_or] at absent
      exact absent.2
    rcases head with rfl | ⟨here, rfl, rfl⟩
    · rw [rest]
    · rcases same here with equal | absent
      · rw [rest, equal]
      · exact absurd (List.mem_cons_self ..) absent

theorem exchanged_counts {data data' : VarData} (counts : countSetBits host.inetPton value' = countSetBits host.inetPton value)
    (related : Exchanged value value' exchanged data data') :
    countSetBits host.inetPton data'.value = countSetBits host.inetPton data.value := by
  rcases related with rfl | ⟨-, rfl, rfl⟩
  · rfl
  · exact counts

theorem exchanged_mem (alike : List.Forall₂ (Exchanged value value' exchanged) known known') {data : VarData}
    (apart : data.value ≠ value ∧ data.value ≠ value') : data ∈ known' ↔ data ∈ known := by
  induction alike with
  | nil => exact Iff.rfl
  | cons head _ ih =>
    rw [List.mem_cons, List.mem_cons, ih]
    rcases head with rfl | ⟨-, rfl, rfl⟩
    · exact Iff.rfl
    · have old : data ≠ .text value := fun same => apart.1 (congrArg VarData.value same)
      have new : data ≠ .text value' := fun same => apart.2 (congrArg VarData.value same)
      rw [or_iff_right old, or_iff_right new]

theorem exchanged_addNew (alike : List.Forall₂ (Exchanged value value' exchanged) known known')
    (apart : ∀ data ∈ copied, data.value ≠ value ∧ data.value ≠ value') :
    List.Forall₂ (Exchanged value value' exchanged) (copied.foldl addNew known) (copied.foldl addNew known') := by
  induction copied generalizing known known' with
  | nil => exact alike
  | cons data copied ih =>
    obtain ⟨here, later⟩ := List.forall_mem_cons.mp apart
    rw [List.foldl_cons, List.foldl_cons]
    refine ih ?_ later
    unfold addNew
    by_cases old : data ∈ known
    · rw [if_pos old, if_pos ((exchanged_mem alike here).mpr old)]
      exact alike
    · rw [if_neg old, if_neg fun old' => old ((exchanged_mem alike here).mp old')]
      exact List.rel_append alike (.cons (.inl rfl) .nil)

theorem carriers_mono (member : ifname ∈ carriers) : ifname ∈ edit.carriers carriers := by
  unfold Edit.carriers
  split
  · split
    · exact List.mem_cons_of_mem _ member
    · exact member
  · exact member

theorem Without.apart (without : Without value value' (known.map VarData.value)) :
    ∀ data ∈ known, data.value ≠ value ∧ data.value ≠ value' := by
  refine fun data member => ⟨?_, ?_⟩
  · rintro rfl
    exact without.1 (List.mem_map_of_mem member)
  · rintro rfl
    exact without.2 (List.mem_map_of_mem member)

theorem exchanged_imp {later : Prop} (alike : List.Forall₂ (Exchanged value value' exchanged) known known')
    (more : exchanged → later) : List.Forall₂ (Exchanged value value' later) known known' :=
  alike.imp fun _ _ => Or.imp_right fun here => ⟨more here.1, here.2⟩

/-- A netmask that is copied where there is none with either text is copied with both texts. -/
theorem exchanged_copied (alike : List.Forall₂ (Exchanged value value' exchanged) copied copied')
    (once : (copied.map VarData.value).count value ≤ 1) (other : value' ∉ copied.map VarData.value)
    (absent : ∀ data ∈ known, data.value ≠ value ∧ data.value ≠ value') :
    List.Forall₂ (Exchanged value value' exchanged) (copied.foldl addNew known) (copied'.foldl addNew known) := by
  induction alike generalizing known with
  | nil => exact List.forall₂_same.mpr fun _ _ => .inl rfl
  | @cons data data' copied copied' head rest ih =>
    rw [List.map_cons, List.mem_cons, not_or] at other
    rw [List.map_cons, List.count_cons] at once
    rw [List.foldl_cons, List.foldl_cons]
    by_cases held : data.value = value
    · have gone : value ∉ copied.map VarData.value := by
        rw [held, beq_self_eq_true, if_pos rfl] at once
        exact List.count_eq_zero.mp (by omega)
      have fresh {data : VarData} (text : data.value = value ∨ data.value = value') : addNew known data = known ++ [data] := by
        refine if_neg fun member => ?_
        exact text.elim (absent data member).1 (absent data member).2
      rw [exchanged_same rest fun _ => .inr gone, fresh (.inl held)]
      rcases head with rfl | ⟨here, rfl, rfl⟩
      · rw [fresh (.inl held)]
        exact List.forall₂_same.mpr fun _ _ => .inl rfl
      · rw [fresh (.inr rfl)]
        exact exchanged_addNew (List.rel_append (List.forall₂_same.mpr fun _ _ => .inl rfl) (.cons (.inr ⟨here, rfl, rfl⟩) .nil))
          (Without.apart ⟨gone, other.2⟩)
    · have same : data' = data := head.resolve_right fun exchanged => held (congrArg VarData.value exchanged.2.1)
      rw [same]
      refine ih (by rw [if_neg (by simpa using held)] at once; exact once) other.2 fun entry member => ?_
      unfold addNew at member
      split at member
      · exact absent entry member
      · rcases List.mem_append.mp member with old | new
        · exact absent entry old
        · rw [List.mem_singleton.mp new]
          exact ⟨held, Ne.symm other.1⟩

/-- Two lists of netmasks that are merged are merged alike with both texts, unless an equal one of these is met. -/
theorem exchanged_merged {own parental : Prop} (knows : List.Forall₂ (Exchanged value value' own) known known')
    (copies : List.Forall₂ (Exchanged value value' parental) copied copied')
    (carried : parental → value' = value ∨ value ∉ copied.map VarData.value ∨
      (copied.map VarData.value).count value ≤ 1 ∧ value' ∉ copied.map VarData.value ∧ Without value value' (known.map VarData.value))
    (held : own → value' = value ∨ value ∉ known.map VarData.value ∨ Without value value' (copied.map VarData.value)) :
    List.Forall₂ (Exchanged value value' (own ∨ parental)) (copied.foldl addNew known) (copied'.foldl addNew known') := by
  by_cases same : own → value' = value ∨ value ∉ known.map VarData.value
  · rw [exchanged_same knows same]
    by_cases plain : parental → value' = value ∨ value ∉ copied.map VarData.value
    · rw [exchanged_same copies plain]
      exact List.forall₂_same.mpr fun _ _ => .inl rfl
    · obtain ⟨here, met⟩ := Classical.not_imp.mp plain
      obtain ⟨differ, holds⟩ := not_or.mp met
      obtain ⟨once, other, without⟩ := ((carried here).resolve_left differ).resolve_left holds
      exact exchanged_copied (exchanged_imp copies Or.inr) once other without.apart
  · obtain ⟨here, met⟩ := Classical.not_imp.mp same
    obtain ⟨differ, holds⟩ := not_or.mp met
    have without := ((held here).resolve_left differ).resolve_left holds
    rw [exchanged_same copies fun _ => .inr without.1]
    exact exchanged_addNew (exchanged_imp knows Or.inl) without.apart

/-- An inheritance copies the same addresses, and the same netmasks behind what the interface had. -/
theorem inherit_agrees (agrees : ∀ x, (collection.iface x).Agrees (Exchanged value value' (x ∈ carriers)) (collection'.iface x))
    (leaves : value' = value ∨ (Edit.inherit ifname parent).Leaves value value' carriers collection)
    (inherits : lifInterfaceCollectionInherit host.config collection ifname parent = some next)
    (inherits' : lifInterfaceCollectionInherit host.config collection' ifname parent = some next') (x : Str) :
    (next.iface x).Agrees (Exchanged value value' (x ∈ (Edit.inherit ifname parent).carriers carriers)) (next'.iface x) := by
  by_cases own : ifname = x
  · subst own
    refine ⟨?_, ?_⟩
    · rw [inherit_after inherits (by decide), inherit_after inherits' (by decide), if_pos rfl, if_pos rfl,
        (agrees ifname).addresses, (agrees parent).addresses]
    · have masks {collection next : Collection}
          (inherits : lifInterfaceCollectionInherit host.config collection ifname parent = some next) :
          dataAt (next.iface ifname).vars (str "netmask") = if ifname = parent then dataAt (collection.iface ifname).vars (str "netmask")
            else (dataAt (collection.iface parent).vars (str "netmask")).foldl addNew
              (dataAt (collection.iface ifname).vars (str "netmask")) := by
        rw [inherit_after inherits (by decide), if_neg (by decide)]
      rw [masks inherits, masks inherits']
      by_cases self : ifname = parent
      · rw [if_pos self, if_pos self]
        exact exchanged_imp (agrees ifname).netmasks carriers_mono
      rw [if_neg self, if_neg self]
      refine exchanged_imp (exchanged_merged (agrees ifname).netmasks (agrees parent).netmasks (fun here => ?_) fun here => ?_)
        fun either => either.elim carriers_mono fun here => ?_
      · refine leaves.imp_right fun leaves => or_iff_not_imp_left.mpr fun holds => ?_
        obtain ⟨once, other, without⟩ := (leaves.resolve_left self).1 here (not_not.mp holds)
        exact ⟨once.le, other, without⟩
      · exact leaves.imp_right fun leaves => or_iff_not_imp_left.mpr fun holds => (leaves.resolve_left self).2 here (not_not.mp holds)
      · show ifname ∈ if parent ∈ carriers then ifname :: carriers else carriers
        rw [if_pos here]
        exact List.mem_cons_self
  · have others : (next.iface x).Agrees (Exchanged value value' (x ∈ carriers)) (next'.iface x) := by
      refine agrees_of_data (agrees x) fun key _ => ?_
      rw [inherit_others inherits own, inherit_others inherits' own]
      exact ⟨rfl, rfl⟩
    exact ⟨others.addresses, exchanged_imp others.netmasks carriers_mono⟩

/-- Runs of counterparts keep interfaces in agreement. -/
theorem counterparts_agree (counterparts : List.Forall₂ (Counterpart rel) edits edits') (made : ∀ edit ∈ edits, edit.Made)
    (agrees : ∀ x, (collection.iface x).Agrees (Exchanged value value' (x ∈ carriers)) (collection'.iface x))
    (values : ∀ x text text', rel x (str "netmask") text text' → text' = text ∨ x ∈ carriers ∧ text = value ∧ text' = value')
    (stays : value' = value ∨ NetmaskStays host value value' carriers collection edits)
    (counts : countSetBits host.inetPton value' = countSetBits host.inetPton value)
    (reached : applyEdits host collection edits = some next) (reached' : applyEdits host collection' edits' = some next') (x : Str) :
    (next.iface x).Agrees (Exchanged value value' True) (next'.iface x) := by
  induction counterparts generalizing collection collection' carriers with
  | nil =>
    cases reached
    cases reached'
    exact ⟨(agrees x).addresses, exchanged_imp (agrees x).netmasks fun _ => trivial⟩
  | @cons edit edit' edits edits' counterpart counterparts ih =>
    obtain ⟨legal, later⟩ := List.forall_mem_cons.mp made
    rw [applyEdits_cons] at reached reached'
    obtain ⟨middle, here, onward⟩ := Option.bind_eq_some_iff.mp reached
    obtain ⟨middle', here', onward'⟩ := Option.bind_eq_some_iff.mp reached'
    unfold NetmaskStays at stays
    rw [here] at stays
    have stays' := stays.imp_right And.right
    have written {name : Str} {step step' : Change}
        (own : (step.apply host (collection.iface name)).Agrees (Exchanged value value' (name ∈ carriers))
          (step'.apply host (collection'.iface name)))
        (here : (Edit.change name step).apply host collection = some middle)
        (here' : (Edit.change name step').apply host collection' = some middle') (y : Str) :
        (middle.iface y).Agrees (Exchanged value value' (y ∈ carriers)) (middle'.iface y) := by
      cases here
      cases here'
      rw [iface_write, iface_write]
      split
      · rename_i same
        exact same ▸ own
      · exact agrees y
    cases counterpart with
    | @value name key text text' given =>
      refine ih later (written (value_agrees (agrees name) legal ?_) here here') values stays' onward onward'
      rintro rfl
      rcases values _ _ _ given with rfl | ⟨own, rfl, rfl⟩
      · exact .inl rfl
      · exact .inr ⟨own, rfl, rfl⟩
    | same =>
      cases edit with
      | find name =>
        refine ih later (fun y => ?_) values stays' onward onward'
        cases here
        cases here'
        rw [iface_collectionFind, iface_collectionFind]
        exact agrees y
      | change name step =>
        have changed := change_agrees (agrees name) legal (fun _ => .inl rfl) fun _ _ => exchanged_counts counts
        exact ih later (written changed here here') values stays' onward onward'
      | inherit name parent =>
        refine ih later (inherit_agrees agrees (stays.imp_right And.left) here here') (fun y text text' given => ?_)
          stays' onward onward'
        exact (values y text text' given).imp_right fun own => ⟨carriers_mono own.1, own.2⟩

end

end

end Ifupdown
