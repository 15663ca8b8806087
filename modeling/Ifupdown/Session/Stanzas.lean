import Ifupdown.Session.Tally

/-! Small interfaces files and command lines. -/
namespace Ifupdown

def stanza (ifname : Str) (vars : List (Str × Str)) : Str × LifInterface :=
  let interface := lifInterfaceInit ifname
  (ifname, { interface with vars := interface.vars ++ vars.map fun var => (var.1, .text var.2) })

theorem stanza_ifname (ifname : Str) (vars : List (Str × Str)) : (stanza ifname vars).2.ifname = ifname :=
  lifInterfaceInit_ifname ifname

theorem stanza_idle (ifname : Str) (vars : List (Str × Str)) :
    (stanza ifname vars).2.refcount = 0 ∧ (stanza ifname vars).2.isPending = false := by
  unfold stanza lifInterfaceInit
  dsimp only
  split <;> exact ⟨rfl, rfl⟩

def interfacesFile (stanzas : List (Str × List (Str × Str)))
    (distinct : (stanzas.map Prod.fst).Nodup)
    (short : ∀ entry ∈ stanzas, entry.1.length < 4096)
    (deduplicated : ∀ entry ∈ stanzas, (requireIfs (stanza entry.1 entry.2).2).Nodup) : Interfaces where
  collection :=
    { entries := stanzas.map fun entry => stanza entry.1 entry.2
      named := by
        intro entry member
        obtain ⟨source, -, rfl⟩ := List.mem_map.mp member
        exact stanza_ifname source.1 source.2
      distinct := by
        rw [lifDictKeys, List.map_map]
        exact distinct }
  idle := by
    intro entry member
    obtain ⟨source, -, rfl⟩ := List.mem_map.mp member
    exact stanza_idle source.1 source.2
  short := by
    intro entry member
    obtain ⟨source, inside, rfl⟩ := List.mem_map.mp member
    exact short source inside
  deduplicated := by
    intro entry member
    obtain ⟨source, inside, rfl⟩ := List.mem_map.mp member
    exact deduplicated source inside

def portBridge : Interfaces :=
  interfacesFile [(str "br0", [(str "requires", str "eth0")]), (str "eth0", [])] (by decide) (by decide) (by decide)

def fork : Interfaces :=
  interfacesFile [(str "tun0", [(str "requires", str "eth0")]), (str "tun1", [(str "requires", str "eth0")]),
    (str "eth0", [])] (by decide) (by decide) (by decide)

theorem sane_entries {interfaces : Interfaces} (entries : ∀ entry ∈ interfaces.collection.entries,
    entry.2.isTemplate = false ∧ entry.2.hasConfigError = false) : interfaces.Sane := by
  intro x
  unfold Collection.iface
  cases found : lifDictFind interfaces.collection.entries x with
  | none =>
    rw [Option.getD_none]
    unfold lifInterfaceInit
    split <;> exact ⟨rfl, rfl⟩
  | some interface => exact entries _ (lifDictFind_mem found)

theorem interfacesFile_sane {stanzas : List (Str × List (Str × Str))} {distinct short deduplicated} :
    (interfacesFile stanzas distinct short deduplicated).Sane := by
  apply sane_entries
  intro entry member
  obtain ⟨source, -, rfl⟩ := List.mem_map.mp member
  unfold stanza lifInterfaceInit
  dsimp only
  split <;> exact ⟨rfl, rfl⟩

theorem interfacesFile_implicit {stanzas : List (Str × List (Str × Str))} {distinct short deduplicated} (x : Str) :
    ((interfacesFile stanzas distinct short deduplicated).collection.iface x).isExplicit = false := by
  unfold Collection.iface
  cases found : lifDictFind (interfacesFile stanzas distinct short deduplicated).collection.entries x with
  | none =>
    rw [Option.getD_none]
    unfold lifInterfaceInit
    split <;> rfl
  | some interface =>
    obtain ⟨source, -, same⟩ := List.mem_map.mp (lifDictFind_mem found)
    obtain rfl : (stanza source.1 source.2).2 = interface := congrArg Prod.snd same
    rw [Option.getD_some]
    unfold stanza lifInterfaceInit
    dsimp only
    split <;> rfl

def Interfaces.autoLines (interfaces : Interfaces) : Interfaces where
  collection :=
    { entries := interfaces.collection.entries.map fun entry =>
        (entry.1, { entry.2 with isAuto := true, isExplicit := true })
      named := by
        intro entry member
        obtain ⟨source, inside, rfl⟩ := List.mem_map.mp member
        exact interfaces.collection.named source inside
      distinct := by
        rw [lifDictKeys, List.map_map]
        exact interfaces.collection.distinct }
  idle := by
    intro entry member
    obtain ⟨source, inside, rfl⟩ := List.mem_map.mp member
    exact interfaces.idle source inside
  short := by
    intro entry member
    obtain ⟨source, inside, rfl⟩ := List.mem_map.mp member
    exact interfaces.short source inside
  deduplicated := by
    intro entry member
    obtain ⟨source, inside, rfl⟩ := List.mem_map.mp member
    exact interfaces.deduplicated source inside

theorem autoLines_sane {interfaces : Interfaces} (sane : interfaces.Sane) : interfaces.autoLines.Sane := by
  apply sane_entries
  intro entry member
  obtain ⟨source, inside, rfl⟩ := List.mem_map.mp member
  have same := sane source.1
  rw [iface_of_mem inside] at same
  exact same

/-- Stanzas that only require interfaces further down in some list close no cycle. -/
theorem acyclic_stanzas {interfaces : Interfaces} (order : List Str)
    (falls : ∀ entry ∈ interfaces.collection.entries, ∀ d ∈ requireIfs entry.2,
      order.idxOf entry.1 < order.idxOf d) :
    Successors.Acyclic fun i => requireIfs (interfaces.collection.iface i) := by
  apply Successors.acyclic_of_rank order.idxOf
  intro i d edge
  unfold Collection.iface at edge
  cases found : lifDictFind interfaces.collection.entries i with
  | none =>
    rw [found, Option.getD_none, requireIfs_init] at edge
    cases edge
  | some interface =>
    rw [found] at edge
    exact falls _ (lifDictFind_mem found) d edge

def calm : Env where
  status _ cmd := cmd != str "fail"
  executable _ := false
  lockable _ := true

def ifup (names : List String) : Invocation :=
  { env := calm, command := { up := true, args := names.map str } }

def ifdown (names : List String) : Invocation :=
  { env := calm, command := { up := false, args := names.map str } }

def freshSystem : System := { saved := StateDict.empty }

theorem freshSystem_tallied (req : Str → List Str) :
    Tallied req (configured ∅ freshSystem.trace) (lifDictFind freshSystem.saved.records) :=
  ⟨fun _ _ => rfl, fun _ none => by cases none⟩

end Ifupdown
