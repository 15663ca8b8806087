import Ifupdown.Model.Address

/-! What the parser does to the collection, from interface.c and the handlers of interface-file.c. -/
namespace Ifupdown

/-- The settings of the configuration file that the parser and the compatibility glue consult. -/
structure LifConfig where
  allowAnyIfaceAsTemplate : Bool := true
  autoExecutorSelection : Bool := true
  compatCreateInterfaces : Bool := true
  compatIfupdown2BridgePortsInheritVlans : Bool := true
  implicitTemplateConversion : Bool := true
  useHostnameForDhcp : Bool := true

/-- The machine that a file is parsed on. `fopen` gives the bytes of a file, `stack` what its line buffer
holds before the first line is read; beyond its end memory counts as zeroed. -/
structure Host where
  config : LifConfig := {}
  nodename : Option Str := none
  inetPton : InetPton := fun _ _ => none
  fopen : Str → Option Str
  exists_ : Str → Bool := fun _ => true
  isReg : Str → Bool := fun _ => true
  wordexp : Str → Option (List Str) := fun word => some [word]
  opendir : Str → Except Str (List Str) := fun _ => .ok []
  stack : Str → List UInt8 := fun _ => []

def Host.dhcpHostname (host : Host) : Option Str := if host.config.useHostnameForDhcp then host.nodename else none

/-- The loop of `lif_interface_collection_inherit` over the variables of the parent. An interface that inherits
from itself walks into what it adds. `none` when the fuel does not last. -/
def inheritVars (self : Bool) : Nat → LifDict VarData → LifDict VarData → Option (LifDict VarData)
  | _, vars, [] => some vars
  | 0, _, _ :: _ => none
  | fuel + 1, vars, (key, data) :: rest =>
    let vars' := if key = str "address" then lifDictAdd vars key data else lifDictAddOnce vars key data
    inheritVars self fuel vars' (if self then rest ++ vars'.drop vars.length else rest)

/-- The fuel is the number of the parent's variables: whoever adds to them while walking never ends. -/
def lifInterfaceCollectionInherit (config : LifConfig) (collection : Collection) (ifname parent : Str) :
    Option Collection :=
  let collection := if config.implicitTemplateConversion then
      collection.write parent (fun iface => { iface with isTemplate := true }) (fun _ => rfl)
    else collection
  let collection := collection.write ifname
    (fun iface => { iface with vars := lifDictAdd iface.vars (str "inherit") (.text parent) }) (fun _ => rfl)
  let other := collection.iface parent
  (inheritVars (ifname == parent) other.vars.length (collection.iface ifname).vars other.vars).map fun vars =>
    collection.write ifname
      (fun iface => { iface with isBond := other.isBond, isBridge := other.isBridge, vars := vars }) (fun _ => rfl)

inductive Change where
  | useExecutor (executor : Str)
  | addressAdd (address : Str)
  /-- What `handle_generic` does with a key that has been remapped. -/
  | triple (token value : Str)
  | dictAdd (key value : Str)
  | dictDelete (key : Str)
  /-- The flags that `handle_auto` sets. -/
  | markAuto
  /-- The flags that `handle_iface` sets for `template` and `defaults`. -/
  | markTemplate
  | noDefaults
  | configError
  | finalize
  deriving DecidableEq

def Change.apply (host : Host) (iface : LifInterface) : Change → LifInterface
  | .useExecutor executor => lifInterfaceUseExecutor host.dhcpHostname iface executor
  | .addressAdd address => lifInterfaceAddressAdd host.inetPton iface address
  | .triple token value =>
    { iface with
      isBridge := iface.isBridge || token == str "bridge-ports"
      vars := lifDictAdd iface.vars token (.text value) }
  | .dictAdd key value => { iface with vars := lifDictAdd iface.vars key (.text value) }
  | .dictDelete key => { iface with vars := lifDictDelete iface.vars key }
  | .markAuto =>
    let isAuto := iface.isAuto || !iface.isTemplate
    { iface with isAuto := isAuto, isExplicit := iface.isExplicit || isAuto }
  | .markTemplate => { iface with isAuto := false, isTemplate := true }
  | .noDefaults => { iface with noDefaults := true }
  | .configError => { iface with hasConfigError := true }
  | .finalize => lifInterfaceFinalize host.inetPton iface

@[simp] theorem Change.apply_ifname (host : Host) (iface : LifInterface) (step : Change) :
    (step.apply host iface).ifname = iface.ifname := by
  cases step <;> simp [Change.apply, lifInterfaceFinalize]

inductive Edit where
  | find (ifname : Str)
  | change (ifname : Str) (step : Change)
  | inherit (ifname parent : Str)
  deriving DecidableEq

/-- `none` when `lif_interface_collection_inherit` does not end. -/
def Edit.apply (host : Host) (collection : Collection) : Edit → Option Collection
  | .find ifname => some (lifInterfaceCollectionFind collection ifname).2
  | .change ifname step =>
    some (collection.write ifname (fun iface => step.apply host iface) (fun iface => step.apply_ifname host iface))
  | .inherit ifname parent => lifInterfaceCollectionInherit host.config collection ifname parent

def lifInterfaceCollectionInit : Collection :=
  Collection.write ⟨[], by simp, by simp⟩ (str "lo")
    (fun lo => lifInterfaceUseExecutor none { lo with isAuto := true, isExplicit := true } (str "loopback"))
    (fun _ => lifInterfaceUseExecutor_ifname ..)

end Ifupdown
