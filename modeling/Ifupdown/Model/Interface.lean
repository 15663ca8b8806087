import Ifupdown.Base.Dict

/-! Interfaces and the interface collection of interface.c. -/
namespace Ifupdown

def lifDictAddOnce [DecidableEq α] (dict : LifDict α) (key : Str) (data : α) : LifDict α :=
  if (key, data) ∈ dict then dict else lifDictAdd dict key data

inductive AddrDomain where
  | inet | inet6
  deriving DecidableEq

structure LifAddress where
  addrBuf : List UInt8
  netmask : Nat
  domain : AddrDomain
  deriving DecidableEq

/-- The data of a variable: a parsed address under the key `address`, a C string elsewhere. -/
inductive VarData where
  | text (value : Str)
  | address (addr : LifAddress)
  deriving DecidableEq

def VarData.value : VarData → Str
  | .text value => value
  | .address _ => []

structure LifInterface where
  ifname : Str
  isAuto : Bool := false
  isBridge : Bool := false
  isBond : Bool := false
  isTemplate : Bool := false
  isPending : Bool := false
  isExplicit : Bool := false
  noDefaults : Bool := false
  hasConfigError : Bool := false
  vars : LifDict VarData := []
  refcount : Nat := 0
  rdependsCount : Nat := 0
  deriving DecidableEq

/-- `hostname` is the node name that `uname` reports, when
`use_hostname_for_dhcp` is set and the call succeeds. -/
def lifInterfaceUseExecutor (hostname : Option Str) (interface : LifInterface) (executor : Str) :
    LifInterface :=
  let interface := { interface with
    vars := lifDictAddOnce interface.vars (str "use") (.text executor)
    isBridge := interface.isBridge || executor == str "bridge"
    isBond := interface.isBond || executor == str "bond" }
  match hostname with
  | some nodename =>
    if executor = str "dhcp" then
      { interface with vars := lifDictAdd interface.vars (str "dhcp-hostname") (.text nodename) }
    else interface
  | none => interface

def lifInterfaceInit (ifname : Str) : LifInterface :=
  let interface := lifInterfaceUseExecutor none { ifname := ifname } (str "link")
  if 46 ∈ ifname then lifInterfaceUseExecutor none interface (str "vlan") else interface

/-- Entries are added under the interface's own name, and only for new names. -/
structure Collection where
  entries : LifDict LifInterface
  named : ∀ entry ∈ entries, entry.2.ifname = entry.1
  distinct : (lifDictKeys entries).Nodup

/-- The interface that a name stands for: its entry, or the one that
`lif_interface_collection_find` would create for it. -/
def Collection.iface (collection : Collection) (ifname : Str) : LifInterface :=
  (lifDictFind collection.entries ifname).getD (lifInterfaceInit ifname)

theorem lifInterfaceUseExecutor_frame (hostname : Option Str) (interface : LifInterface) (executor : Str) :
    ∃ vars isBridge isBond, lifInterfaceUseExecutor hostname interface executor =
      { interface with vars := vars, isBridge := isBridge, isBond := isBond } := by
  unfold lifInterfaceUseExecutor
  split
  · split <;> exact ⟨_, _, _, rfl⟩
  · exact ⟨_, _, _, rfl⟩

theorem lifInterfaceInit_ifname (ifname : Str) : (lifInterfaceInit ifname).ifname = ifname := by
  unfold lifInterfaceInit
  split <;> rfl

@[simp] theorem Collection.iface_ifname (collection : Collection) (ifname : Str) :
    (collection.iface ifname).ifname = ifname := by
  unfold Collection.iface
  cases found : lifDictFind collection.entries ifname with
  | none => exact lifInterfaceInit_ifname ifname
  | some interface => exact collection.named _ (lifDictFind_mem found)

theorem iface_of_mem {collection : Collection} {entry : Str × LifInterface} (member : entry ∈ collection.entries) :
    collection.iface entry.1 = entry.2 := by
  rw [Collection.iface, lifDictFind_of_mem collection.distinct member]
  rfl

/-- Lookup and insertion are one operation. -/
def lifInterfaceCollectionFind (collection : Collection) (ifname : Str) :
    LifInterface × Collection :=
  match found : lifDictFind collection.entries ifname with
  | some interface => (interface, collection)
  | none =>
    (lifInterfaceInit ifname,
      { entries := lifDictAdd collection.entries ifname (lifInterfaceInit ifname)
        named := by
          intro entry member
          rcases List.mem_append.mp member with old | new
          · exact collection.named entry old
          · rw [List.mem_singleton.mp new]
            exact lifInterfaceInit_ifname ifname
        distinct := lifDictKeys_add_nodup collection.distinct found })

theorem lifInterfaceCollectionFind_fst (collection : Collection) (ifname : Str) :
    (lifInterfaceCollectionFind collection ifname).1 = collection.iface ifname := by
  unfold lifInterfaceCollectionFind Collection.iface
  split <;> rename_i found <;> simp [found]

@[simp] theorem iface_collectionFind (collection : Collection) (ifname other : Str) :
    (lifInterfaceCollectionFind collection ifname).2.iface other = collection.iface other := by
  unfold lifInterfaceCollectionFind
  split
  · rfl
  · rename_i absent
    simp only [Collection.iface, lifDictFind_add]
    cases lifDictFind collection.entries other with
    | some interface => rfl
    | none =>
      by_cases same : ifname = other
      · subst same; simp
      · simp [same]

theorem collectionFind_keys (collection : Collection) (ifname : Str) :
    lifDictKeys (lifInterfaceCollectionFind collection ifname).2.entries =
      lifDictKeys collection.entries ++
        if (lifDictFind collection.entries ifname).isSome then [] else [ifname] := by
  unfold lifInterfaceCollectionFind
  split <;> rename_i found <;> simp [found, lifDictAdd]

/-- A write through a pointer to an interface. C code holds such a pointer only
to an entry of the collection; for other names the entry is made first. -/
def Collection.write (collection : Collection) (ifname : Str) (f : LifInterface → LifInterface)
    (keeps : ∀ interface, (f interface).ifname = interface.ifname) : Collection :=
  let found := (lifInterfaceCollectionFind collection ifname).2
  { entries := lifDictWrite found.entries ifname f
    named := by
      intro entry member
      have read := lifDictFind_of_mem (by rw [lifDictKeys_write]; exact found.distinct) member
      rw [lifDictFind_write] at read
      split at read
      · obtain ⟨interface, before, same⟩ := Option.map_eq_some_iff.mp read
        rw [← same, keeps]
        exact found.named _ (lifDictFind_mem before)
      · exact found.named _ (lifDictFind_mem read)
    distinct := by rw [lifDictKeys_write]; exact found.distinct }

theorem iface_write (collection : Collection) (ifname other : Str) (f : LifInterface → LifInterface)
    (keeps : ∀ interface, (f interface).ifname = interface.ifname) :
    (collection.write ifname f keeps).iface other =
      if ifname = other then f (collection.iface other) else collection.iface other := by
  have present : (lifDictFind (lifInterfaceCollectionFind collection ifname).2.entries ifname).isSome := by
    rw [Option.isSome_iff_ne_none, Ne, lifDictFind_none, collectionFind_keys]
    cases found : lifDictFind collection.entries ifname with
    | none => simp
    | some interface =>
      have member := List.mem_map_of_mem (f := Prod.fst) (lifDictFind_mem found)
      simpa using member
  rw [← iface_collectionFind collection ifname other]
  simp only [Collection.write, Collection.iface, lifDictFind_write]
  by_cases same : ifname = other
  · subst same
    obtain ⟨interface, read⟩ := Option.isSome_iff_exists.mp present
    simp [read]
  · simp [same]

def Collection.setRefcount (collection : Collection) (ifname : Str) (refcount : Nat) : Collection :=
  collection.write ifname (fun interface => { interface with refcount := refcount }) (fun _ => rfl)

def Collection.setPending (collection : Collection) (ifname : Str) (pending : Bool) : Collection :=
  collection.write ifname (fun interface => { interface with isPending := pending }) (fun _ => rfl)

def Collection.setExplicit (collection : Collection) (ifname : Str) : Collection :=
  collection.write ifname (fun interface => { interface with isExplicit := true }) (fun _ => rfl)

@[simp] theorem iface_setRefcount (collection : Collection) (ifname other : Str) (refcount : Nat) :
    (collection.setRefcount ifname refcount).iface other =
      if ifname = other then { collection.iface other with refcount := refcount }
      else collection.iface other :=
  iface_write ..

@[simp] theorem iface_setPending (collection : Collection) (ifname other : Str) (pending : Bool) :
    (collection.setPending ifname pending).iface other =
      if ifname = other then { collection.iface other with isPending := pending }
      else collection.iface other :=
  iface_write ..

@[simp] theorem iface_setExplicit (collection : Collection) (ifname other : Str) :
    (collection.setExplicit ifname).iface other =
      if ifname = other then { collection.iface other with isExplicit := true }
      else collection.iface other :=
  iface_write ..

end Ifupdown
