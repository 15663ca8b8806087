import Ifupdown.Model.Ifparse
import Ifupdown.Parser.PrintedLines

/-! Stanzas as ifparse prints them, and what reading them back makes of an interface. -/
namespace Ifupdown

def useVars (hostname : Option Str) (vars : LifDict VarData) (executor : Str) : LifDict VarData :=
  let used := lifDictAddOnce vars (str "use") (.text executor)
  match hostname with
  | some nodename => if executor = str "dhcp" then lifDictAdd used (str "dhcp-hostname") (.text nodename) else used
  | none => used

/-- What reading the line of a variable does to the variables that have been read. -/
def rereadVar (host : Host) (vars : LifDict VarData) (entry : Str × VarData) : LifDict VarData :=
  match entry.2 with
  | .address addr => lifDictAdd (useVars none vars (str "static")) entry.1 (.address addr)
  | .text value =>
    match lineKind entry.1 with
    | .keyword .gateway => lifDictAdd (useVars host.dhcpHostname vars (str "static")) entry.1 (.text value)
    | .keyword .hostname => lifDictAdd (lifDictDelete vars entry.1) entry.1 (.text value)
    | .keyword .use => useVars host.dhcpHostname vars value
    | _ =>
      let added := lifDictAdd vars entry.1 (.text value)
      if host.config.autoExecutorSelection ∧ 45 ∈ entry.1 then
        useVars host.dhcpHostname added (entry.1.takeWhile fun c => c != 45)
      else added

/-- A variable that its line gives back. -/
structure ReadsBack (host : Host) (inetNtop : InetNtop) (entry : Str × VarData) (value : Str) : Prop where
  printed : printedValue inetNtop entry = some value
  fits : LineValue entry.1 value
  stored : Stored (entryLine entry.1 value)
  solid : Solid entry.1
  kind : lineKind entry.1 ∈ stanzaKinds
  remapped : maybeRemapToken entry.1 = entry.1
  data : match entry.2 with
    | .address addr => entry.1 = str "address" ∧ lifAddressParse host.inetPton value = some addr ∧ addr.netmask ≠ 0
    | .text _ => entry.1 ≠ str "address" ∧ entry.1 ≠ str "netmask"

/-- The key that has a handler, unless it is an alternative for another one. -/
structure Keyword.Only (parserkw : Keyword) (key : Str) : Prop where
  address : parserkw = .address → key = str "address"
  gateway : parserkw = .gateway → key = str "gateway"
  hostname : parserkw = .hostname → key = str "dhcp-hostname" ∨ maybeRemapToken key ≠ key
  use : parserkw = .use → key = str "use"

def Finalized (vars : LifDict VarData) : Prop :=
  ∀ entry ∈ vars, entry.1 ≠ str "netmask" ∧ ∀ addr, entry.2 = .address addr → addr.netmask ≠ 0

def LifInterface.flags (iface : LifInterface) : Bool × Bool × Bool := (iface.isAuto, iface.isTemplate, iface.noDefaults)

section
variable {host : Host} {inetNtop : InetNtop} {iface : LifInterface} {vars : LifDict VarData} {entry : Str × VarData} {value : Str}

theorem useExecutor_vars (hostname : Option Str) (iface : LifInterface) (executor : Str) :
    (lifInterfaceUseExecutor hostname iface executor).vars = useVars hostname iface.vars executor ∧
      (lifInterfaceUseExecutor hostname iface executor).flags = iface.flags := by
  unfold lifInterfaceUseExecutor useVars
  cases hostname with
  | none => exact ⟨rfl, rfl⟩
  | some nodename =>
    dsimp only
    split <;> exact ⟨rfl, rfl⟩

theorem lineKind_listed {key : Str} {parserkw : Keyword} (kind : lineKind key = .keyword parserkw) : (key, parserkw) ∈ keywords := by
  unfold lineKind at kind
  split at kind
  · cases kind
  · split at kind <;> cases kind
    rename_i found
    obtain ⟨listed, same⟩ := bsearch_found found
    rw [strcmp_eq.mp same]
    exact listed

theorem lineKind_only {key : Str} {parserkw : Keyword} (kind : lineKind key = .keyword parserkw) : parserkw.Only key := by
  have only : ∀ entry ∈ keywords, (entry.2 = .address → entry.1 = str "address") ∧ (entry.2 = .gateway → entry.1 = str "gateway") ∧
      (entry.2 = .hostname → entry.1 = str "dhcp-hostname" ∨ maybeRemapToken entry.1 ≠ entry.1) ∧
      (entry.2 = .use → entry.1 = str "use") := by decide +kernel
  obtain ⟨address, gateway, hostname, use⟩ := only _ (lineKind_listed kind)
  exact ⟨address, gateway, hostname, use⟩

/-- The line of an entry does what is said of the entry. -/
theorem entryChanges_reread (reads : ReadsBack host inetNtop entry value) (iface : LifInterface) :
    ((entryChanges host entry.1 value).foldl (Change.apply host) iface).vars = rereadVar host iface.vars entry ∧
      ((entryChanges host entry.1 value).foldl (Change.apply host) iface).flags = iface.flags := by
  obtain ⟨key, data⟩ := entry
  obtain ⟨printed, -, -, -, kind, remapped, data_⟩ := reads
  dsimp only at printed kind remapped data_
  unfold rereadVar entryChanges
  rw [remapped]
  cases data with
  | address addr =>
    obtain ⟨rfl, parsed, -⟩ := data_
    rw [show lineKind (str "address") = .keyword .address by decide]
    have added : lifInterfaceAddressAdd host.inetPton iface value =
        { lifInterfaceUseExecutor none iface (str "static") with
          vars := lifDictAdd (lifInterfaceUseExecutor none iface (str "static")).vars (str "address") (.address addr) } := by
      rw [lifInterfaceAddressAdd, parsed]
    dsimp only [List.foldl_cons, List.foldl_nil, Change.apply]
    rw [added]
    exact ⟨rfl, rfl⟩
  | text text =>
    obtain rfl : text = value := by
      rw [printedValue, if_neg data_.1] at printed
      exact Option.some_inj.mp printed
    simp only [stanzaKinds, List.mem_cons, List.not_mem_nil, or_false] at kind
    rcases kind with kind | kind | kind | kind | kind
    all_goals simp only [kind]
    · -- the executor that the key asks for
      split
      · exact useExecutor_vars _ _ _
      · exact ⟨rfl, rfl⟩
    · exact absurd ((lineKind_only kind).address rfl) data_.1
    · obtain ⟨vars, flags⟩ := useExecutor_vars host.dhcpHostname iface (str "static")
      exact ⟨congrArg (fun vars => lifDictAdd vars key (VarData.text text)) vars, flags⟩
    · obtain rfl := ((lineKind_only kind).hostname rfl).resolve_right (not_not.mpr remapped)
      exact ⟨rfl, rfl⟩
    · exact useExecutor_vars _ _ _

theorem mem_useVars {hostname : Option Str} {executor : Str} (member : entry ∈ useVars hostname vars executor) :
    entry ∈ vars ∨ entry.1 = str "use" ∧ entry.2 = .text executor ∨ ∃ nodename ∈ hostname, entry = (str "dhcp-hostname", .text nodename) := by
  have used (member : entry ∈ lifDictAddOnce vars (str "use") (.text executor)) :
      entry ∈ vars ∨ entry.1 = str "use" ∧ entry.2 = .text executor := by
    unfold lifDictAddOnce lifDictAdd at member
    split at member
    · exact Or.inl member
    · rcases List.mem_append.mp member with old | new
      · exact Or.inl old
      · rw [List.mem_singleton.mp new]
        exact Or.inr ⟨rfl, rfl⟩
  unfold useVars at member
  dsimp only at member
  split at member
  · rename_i nodename
    split at member
    · rcases List.mem_append.mp member with old | new
      · exact (used old).imp_right Or.inl
      · exact Or.inr (Or.inr ⟨nodename, rfl, List.mem_singleton.mp new⟩)
    · exact (used member).imp_right Or.inl
  · exact (used member).imp_right Or.inl

theorem Finalized.use (finalized : Finalized vars) (hostname : Option Str) (executor : Str) :
    Finalized (useVars hostname vars executor) := by
  intro entry member
  rcases mem_useVars member with old | ⟨key, data⟩ | ⟨nodename, -, rfl⟩
  · exact finalized entry old
  · refine ⟨by rw [key]; decide, fun addr same => ?_⟩
    rw [data] at same
    cases same
  · exact ⟨show str "dhcp-hostname" ≠ str "netmask" by decide, fun addr same => by cases same⟩

theorem Finalized.add {key : Str} {data : VarData} (finalized : Finalized vars) (other : key ≠ str "netmask")
    (netmask : ∀ addr, data = .address addr → addr.netmask ≠ 0) : Finalized (lifDictAdd vars key data) := by
  intro added member
  rcases List.mem_append.mp member with old | new
  · exact finalized added old
  · rw [List.mem_singleton.mp new]
    exact ⟨other, netmask⟩

theorem Finalized.subset (finalized : Finalized vars) {vars' : LifDict VarData} (subset : vars' ⊆ vars) : Finalized vars' :=
  fun entry member => finalized entry (subset member)

theorem Finalized.reread (finalized : Finalized vars) (reads : ReadsBack host inetNtop entry value) :
    Finalized (rereadVar host vars entry) := by
  obtain ⟨key, data⟩ := entry
  obtain ⟨-, -, -, -, -, -, data_⟩ := reads
  unfold rereadVar
  cases data with
  | address addr =>
    obtain ⟨rfl, -, netmask⟩ := data_
    refine (finalized.use none _).add (show str "address" ≠ str "netmask" by decide) ?_
    rintro other ⟨⟩
    exact netmask
  | text text =>
    have adds {vars : LifDict VarData} (finalized : Finalized vars) : Finalized (lifDictAdd vars key (.text text)) :=
      finalized.add data_.2 fun addr same => by cases same
    dsimp only
    split
    · exact adds (finalized.use _ _)
    · exact adds (finalized.subset lifDictDelete_sublist.subset)
    · exact finalized.use _ _
    · split
      · exact (adds finalized).use _ _
      · exact adds finalized

theorem lifInterfaceFinalize_done {inetPton : InetPton} (finalized : Finalized iface.vars) :
    lifInterfaceFinalize inetPton iface = iface := by
  have same : (iface.vars.map fun entry =>
      if entry.1 = str "address" then (entry.1, finalizeAddress inetPton iface entry.2) else entry) = iface.vars := by
    refine List.map_congr_left (g := id) (fun entry member => ?_) |>.trans (List.map_id _)
    split
    · cases data : entry.2 with
      | text _ => simp [finalizeAddress, ← data]
      | address addr =>
        rw [finalizeAddress, if_neg ((finalized entry member).2 addr data), ← data]
        rfl
    · rfl
  have absent : str "netmask" ∉ lifDictKeys iface.vars := by
    intro present
    obtain ⟨entry, member, key⟩ := List.mem_map.mp present
    exact (finalized entry member).1 key
  unfold lifInterfaceFinalize
  dsimp only
  rw [same, lifDictDelete_absent absent]

end

def shownValue (inetNtop : InetNtop) (entry : Str × VarData) : Str := (printedValue inetNtop entry).getD []

def stanzaLines (inetNtop : InetNtop) (iface : LifInterface) : List Str :=
  (if iface.isAuto then [str "auto " ++ iface.ifname] else []) ++
    ifaceLine iface.ifname iface.isTemplate iface.noDefaults ::
      (iface.vars.map (fun entry => entryLine entry.1 (shownValue inetNtop entry)) ++ [[]])

def stanzaChanges (host : Host) (inetNtop : InetNtop) (iface : LifInterface) : List Change :=
  (if iface.isAuto then [.markAuto] else []) ++ headChanges iface.isTemplate iface.noDefaults ++
    iface.vars.flatMap fun entry => entryChanges host entry.1 (shownValue inetNtop entry)

/-- A stanza that does without the defaults, and whose lines give back its variables. -/
structure PrintsBack (host : Host) (inetNtop : InetNtop) (iface : LifInterface) : Prop where
  solid : Solid iface.ifname
  some_ : iface.ifname ≠ []
  auto : Stored (str "auto " ++ iface.ifname)
  head : Stored (ifaceLine iface.ifname iface.isTemplate iface.noDefaults)
  optsOut : iface.isTemplate = true ∨ iface.noDefaults = true
  vars : ∀ entry ∈ iface.vars, ReadsBack host inetNtop entry (shownValue inetNtop entry)

/-- Reading has made the interface the current one and has changed it, and no other. -/
structure Carries (host : Host) (ifname : Str) (changes : List Change) (state next : ParseState) : Prop where
  inside : next.curIface = some ifname
  iface : ∀ x, next.collection.iface x =
    if ifname = x then changes.foldl (Change.apply host) (state.collection.iface x) else state.collection.iface x
  has : ∀ x, next.collection.Has x ↔ state.collection.Has x ∨ x = ifname

def Handles (host : Host) (parse : ParseState → Str → Option (Bool × ParseState)) (lines : List Str) (state next : ParseState) :
    Prop :=
  takeLines (handleLine host parse) (lines.map fun line => line ++ [0]) state = some (true, next)

section
variable {host : Host} {inetNtop : InetNtop} {parse : ParseState → Str → Option (Bool × ParseState)}
  {state next last : ParseState} {ifname : Str} {iface : LifInterface}

theorem Handles.cons {line : Str} {lines : List Str}
    (first : handleLine host parse (state.load (line ++ [0])) = some (true, next)) (later : Handles host parse lines next last) :
    Handles host parse (line :: lines) state last := by
  rw [Handles, List.map_cons, takeLines, first]
  exact later

theorem Handles.append {lines more : List Str} (first : Handles host parse lines state next)
    (later : Handles host parse more next last) : Handles host parse (lines ++ more) state last := by
  rw [Handles, List.map_append, takeLines_append, first]
  exact later

theorem Carries.trans {changes more : List Change} (first : Carries host ifname changes state next)
    (later : Carries host ifname more next last) : Carries host ifname (changes ++ more) state last := by
  refine ⟨later.inside, fun x => ?_, fun x => ?_⟩
  · rw [later.iface, first.iface, List.foldl_append]
    split <;> rfl
  · rw [later.has, first.has, or_assoc, or_self]

theorem Carries.altered {changes : List Change} {collection : Collection} (inside : next.curIface = some ifname)
    (same : ∀ x, collection.iface x = state.collection.iface x) (has : ∀ x, collection.Has x ↔ state.collection.Has x)
    (altered : next.collection = (lifInterfaceCollectionFind collection ifname).2.alter host ifname changes) :
    Carries host ifname changes state next := by
  refine ⟨inside, fun x => ?_, fun x => ?_⟩
  · rw [altered, iface_alter, iface_collectionFind, same]
  · rw [altered, alter_has (find_has.mpr (Or.inr rfl)), find_has, has]

theorem finalize_done (held : state.Held) (done : ∀ x, Finalized (state.collection.iface x).vars) (x : Str) :
    (state.finalize host).collection.iface x = state.collection.iface x ∧
      ((state.finalize host).collection.Has x ↔ state.collection.Has x) := by
  unfold ParseState.finalize
  cases current : state.curIface with
  | none => exact ⟨rfl, Iff.rfl⟩
  | some ifname =>
    refine ⟨?_, change_had (held ifname current)⟩
    rw [change_alter, iface_alter]
    split
    · exact lifInterfaceFinalize_done (done x)
    · rfl

theorem Carries.held {changes : List Change} (carries : Carries host ifname changes state next) : next.Held := by
  intro x current
  rw [carries.inside] at current
  cases current
  exact (carries.has ifname).mpr (Or.inr rfl)

/-- The lines of the variables, one after the other. -/
theorem entries_read {vars : LifDict VarData} (reads : ∀ entry ∈ vars, ReadsBack host inetNtop entry (shownValue inetNtop entry))
    (inside : state.curIface = some ifname) (held : state.Held) :
    ∃ next, Handles host parse (vars.map fun entry => entryLine entry.1 (shownValue inetNtop entry)) state next ∧
      Carries host ifname (vars.flatMap fun entry => entryChanges host entry.1 (shownValue inetNtop entry)) state next := by
  induction vars generalizing state with
  | nil =>
    refine ⟨state, rfl, inside, fun x => by simp, fun x => (or_iff_left_of_imp ?_).symm⟩
    rintro rfl
    exact held x inside
  | cons entry rest ih =>
    obtain ⟨own, others⟩ := List.forall_mem_cons.mp reads
    obtain ⟨next, handled, inside', altered⟩ := @entry_handled host parse state ifname entry.1 (shownValue inetNtop entry)
      own.solid own.kind own.fits inside
    have known : state.collection.Has ifname := held ifname inside
    have carries : Carries host ifname (entryChanges host entry.1 (shownValue inetNtop entry)) state next := by
      refine ⟨inside', fun x => ?_, fun x => ?_⟩
      · rw [altered, iface_alter]
      · rw [altered, alter_has known]
        exact (or_iff_left_of_imp (by rintro rfl; exact known)).symm
    obtain ⟨last, later, carries'⟩ := ih others inside' carries.held
    exact ⟨last, .cons handled later, carries.trans carries'⟩

/-- A printed stanza changes its own interface, and makes it the current one. -/
theorem stanza_read (fits : PrintsBack host inetNtop iface) (held : state.Held)
    (done : ∀ x, Finalized (state.collection.iface x).vars) :
    ∃ next, Handles host parse (stanzaLines inetNtop iface) state next ∧
      Carries host iface.ifname (stanzaChanges host inetNtop iface) state next := by
  obtain ⟨solid, some_, -, -, optsOut, vars⟩ := fits
  -- with the `auto` line or without it
  obtain ⟨marked, handled, held', same, has⟩ : ∃ marked,
      Handles host parse (if iface.isAuto then [str "auto " ++ iface.ifname] else []) state marked ∧ marked.Held ∧
      (∀ x, marked.collection.iface x = if iface.ifname = x then
        (if iface.isAuto then [Change.markAuto] else []).foldl (Change.apply host) (state.collection.iface x)
        else state.collection.iface x) ∧
      ∀ x, marked.collection.Has x ∨ x = iface.ifname ↔ state.collection.Has x ∨ x = iface.ifname := by
    cases iface.isAuto with
    | false => exact ⟨state, rfl, held, fun x => by simp, fun x => Iff.rfl⟩
    | true =>
      obtain ⟨next, handled, inside, altered⟩ := @auto_handled host parse state iface.ifname solid some_
      have carries : Carries host iface.ifname [.markAuto] state next :=
        .altered inside (fun _ => rfl) (fun _ => Iff.rfl) altered
      exact ⟨next, .cons handled rfl, carries.held, carries.iface, fun x => by rw [carries.has, or_assoc, or_self]⟩
  have done' (x : Str) : Finalized (marked.collection.iface x).vars := by
    rw [same]
    split
    · split
      · exact done x
      · exact done x
    · exact done x
  obtain ⟨next, entered, inside, altered⟩ := @iface_handled host parse marked iface.ifname iface.isTemplate iface.noDefaults
    optsOut solid some_
  have head : Carries host iface.ifname (headChanges iface.isTemplate iface.noDefaults) marked next :=
    .altered inside (fun x => (finalize_done held' done' x).1) (fun x => (finalize_done held' done' x).2) altered
  obtain ⟨last, read, entries⟩ := @entries_read host inetNtop parse next iface.ifname iface.vars vars inside head.held
  obtain ⟨left, blank, current, kept⟩ := @blank_handled host parse last
  refine ⟨left, handled.append (.cons entered (read.append (.cons blank rfl))), current.trans entries.inside, fun x => ?_,
    fun x => ?_⟩
  · rw [kept, (head.trans entries).iface, same, stanzaChanges]
    simp only [List.foldl_append]
    split <;> rfl
  · rw [kept, (head.trans entries).has, has]

end

end Ifupdown
