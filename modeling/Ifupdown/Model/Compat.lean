import Ifupdown.Model.Edits

/-! Compatibility glue to other implementations, from compat.c. -/
namespace Ifupdown

def maybePimp (key : Str) (data : Option VarData) (vars : LifDict VarData) : LifDict VarData :=
  match data with
  | none => vars
  | some data => if (lifDictFind vars key).isNone then lifDictAdd vars key data else vars

def pimpPort (bridgePvid bridgeVids : Option VarData) (bridgePort : LifInterface) : LifInterface :=
  { bridgePort with vars := maybePimp (str "bridge-vids") bridgeVids (maybePimp (str "bridge-pvid") bridgePvid bridgePort.vars) }

theorem pimpPort_ifname (bridgePvid bridgeVids : Option VarData) (bridgePort : LifInterface) :
    (pimpPort bridgePvid bridgeVids bridgePort).ifname = bridgePort.ifname := rfl

def pimpToken (config : LifConfig) (bridgePvid bridgeVids : Option VarData) (collection : Collection) (token : Str) : Collection :=
  if (lifDictFind collection.entries token).isSome || config.compatCreateInterfaces then
    collection.write token (pimpPort bridgePvid bridgeVids) (pimpPort_ifname bridgePvid bridgeVids)
  else collection

def pimpBridge (config : LifConfig) (collection : Collection) (bridge : LifInterface) : Collection :=
  if !bridge.isBridge then collection
  else
    let bridgePvid := lifDictFind bridge.vars (str "bridge-pvid")
    let bridgeVids := lifDictFind bridge.vars (str "bridge-vids")
    if bridgePvid.isNone && bridgeVids.isNone then collection
    else
      match lifDictFind bridge.vars (str "bridge-ports") with
      | none => collection
      | some bridgePortsEntry =>
        let bridgePortsStr := strlcpy 4096 bridgePortsEntry.value
        if bridgePortsStr = str "none" then collection
        else (lifTokens bridgePortsStr).foldl (pimpToken config bridgePvid bridgeVids) collection

/-- The loop over the collection, with the names of the entries that come. What is added on the way comes behind them.
`none` when the fuel does not last. -/
def compatIfupdown2BridgePortsInheritVlans (config : LifConfig) : Nat → Collection → List Str → Option Collection
  | _, collection, [] => some collection
  | 0, _, _ :: _ => none
  | fuel + 1, collection, ifname :: rest =>
    let collection' := pimpBridge config collection (collection.iface ifname)
    compatIfupdown2BridgePortsInheritVlans config fuel collection'
      (rest ++ (lifDictKeys collection'.entries).drop collection.entries.length)

def LifInterface.ports (iface : LifInterface) : List Str :=
  if !iface.isBridge then []
  else
    match lifDictFind iface.vars (str "bridge-ports") with
    | none => []
    | some entry => if strlcpy 4096 entry.value = str "none" then [] else lifTokens (strlcpy 4096 entry.value)

/-- Each entry that is there, and each port that may be added, is visited once. The call succeeds unless memory runs out. -/
def lifCompatApply (config : LifConfig) (collection : Collection) : Option Collection :=
  if config.compatIfupdown2BridgePortsInheritVlans then
    compatIfupdown2BridgePortsInheritVlans config (collection.entries.flatMap fun entry => entry.1 :: entry.2.ports).length collection
      (lifDictKeys collection.entries)
  else some collection

end Ifupdown
