import Ifupdown.Model.Address

/-! The link executor, from executors/linux/link. -/
namespace Ifupdown

/-- The variables that the script reads. One that is not set counts as empty. -/
structure LinkEnvironment where
  iface : Str
  linkType : Str := []
  vethPeerName : Str := []
  vlanRawDevice : Str := []
  vlanId : Str := []
  vlanReorderHdr : Str := []
  vlanGvrp : Str := []
  vlanMvrp : Str := []
  vlanLooseBinding : Str := []
  vlanBridgeBinding : Str := []
  vlanProtocol : Str := []
  linkOptions : Str := []

/-- What the script has from the shell and from the machine: which directories there are, the words that a value
without quotes becomes, and what `echo` and `tr` make of them. -/
structure Shell where
  isDir : Str → Bool
  fields : Str → List Str
  lower : List Str → Str

/-- The variables as they are behind a call that succeeds. -/
def isVlan (env : LinkEnvironment) : Option LinkEnvironment :=
  if 35 ∈ env.iface then none
  else if 58 ∈ env.iface then none
  else if (str "vlan").isPrefixOf env.iface ∧ 46 ∈ env.iface then none
  else if (str "vlan").isPrefixOf env.iface then
    if env.vlanRawDevice = [] then none else some { env with vlanId := env.iface.drop 4 }
  else
    match strrchr 46 env.iface with
    | some (before, behind) => some { env with vlanRawDevice := before, vlanId := behind }
    | none =>
      if env.vlanRawDevice = [] then none
      else if env.vlanId = [] then none
      else some env

def onoff (shell : Shell) (value : Str) : Str :=
  match shell.fields value with
  | [] => str "off"
  | first :: _ => if first = str "on" ∨ first = str "1" then str "on" else str "off"

/-- A device that `ip link add` is called for, with what the command line says of it. -/
inductive LinkDevice where
  | dummy
  | veth (peer : Option Str)
  | vlan (rawDevice : Str) (linkOptions : List Str) (id protocol : Str) (vlanOptions : List Str)
  deriving DecidableEq

def linkDepend (env : LinkEnvironment) : Str :=
  match isVlan env with
  | some env => env.vlanRawDevice ++ str "\n"
  | none => if env.linkType = str "veth" ∧ env.vethPeerName ≠ [] then env.vethPeerName ++ str "\n" else []

def sysClassNet (ifname : Str) : Str := str "/sys/class/net/" ++ ifname

def vlanOptions (shell : Shell) (env : LinkEnvironment) : List Str :=
  [(str "reorder_hdr", env.vlanReorderHdr), (str "gvrp", env.vlanGvrp), (str "mvrp", env.vlanMvrp),
    (str "loose_binding", env.vlanLooseBinding), (str "bridge_binding", env.vlanBridgeBinding)].flatMap
    fun (name, value) => if value = [] then [] else [name, onoff shell value]

/-- The link options are passed on for one of the protocols only. -/
def vlanDevice (shell : Shell) (env : LinkEnvironment) : LinkDevice :=
  if shell.lower (shell.fields env.vlanProtocol) ∈ [str "802.1ad", str "qinq", str "q-in-q"] then
    .vlan env.vlanRawDevice (shell.fields env.linkOptions) env.vlanId (str "802.1ad") (vlanOptions shell env)
  else .vlan env.vlanRawDevice [] env.vlanId (str "802.1Q") (vlanOptions shell env)

/-- The device that the `create` phase makes, if any, or the message of the run that fails. Kernel modules are loaded
on the way. -/
def linkCreate (shell : Shell) (env : LinkEnvironment) : Except Str (Option LinkDevice) :=
  if shell.isDir (sysClassNet env.iface) then .ok none
  else if env.linkType = str "dummy" then .ok (some .dummy)
  else if env.linkType = str "veth" then
    .ok (some (.veth (if env.vethPeerName = [] then none else some env.vethPeerName)))
  else
    match isVlan env with
    | none => .ok none
    | some env =>
      if !shell.isDir (sysClassNet env.vlanRawDevice) then
        .error (str "Interface " ++ env.iface ++ str " is missing VLAN raw device " ++ env.vlanRawDevice ++ str "\n")
      else .ok (some (vlanDevice shell env))

def linkDestroy (shell : Shell) (env : LinkEnvironment) : Bool :=
  shell.isDir (sysClassNet env.iface) &&
    (env.linkType == str "dummy" || env.linkType == str "veth" || (isVlan env).isSome)

end Ifupdown
