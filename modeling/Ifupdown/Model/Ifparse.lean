import Ifupdown.Model.Compat
import Ifupdown.Model.InterfaceFile
import Ifupdown.Model.Rdepends
import Ifupdown.Model.Yaml

/-! The ifparse command, from cmd/ifparse.c and cmd/pretty-print-iface.c. -/
namespace Ifupdown

/-- What ifparse prints for a variable, unless it is an address that cannot be unparsed. -/
def printedValue (inetNtop : InetNtop) (entry : Str × VarData) : Option Str :=
  if entry.1 = str "address" then
    match entry.2 with
    | .text _ => none
    | .address addr => lifAddressUnparse inetNtop addr 512 true
  else some entry.2.value

def yamlEntries (inetNtop : InetNtop) : LifYamlNode → LifDict VarData → LifYamlNode
  | ifaceNode, [] => ifaceNode
  | ifaceNode, entry :: rest =>
    match printedValue inetNtop entry with
    | none => yamlEntries inetNtop ifaceNode rest
    | some value =>
      let ifaceEntryNode := lifYamlNodeNewString (some entry.1) value
      yamlEntries inetNtop (lifYamlNodeAppendChild ifaceNode ifaceEntryNode) rest

def yamlInterface (inetNtop : InetNtop) (iface : LifInterface) : LifYamlNode :=
  let ifaceNode := lifYamlNodeNewList (some iface.ifname)
  if iface.isAuto then
    yamlEntries inetNtop (lifYamlNodeAppendChild ifaceNode (lifYamlNodeNewBoolean (some (str "auto")) true)) iface.vars
  else yamlEntries inetNtop ifaceNode iface.vars

/-- The node of the interface is written, and not the document that it has been appended to. -/
def prettyprintInterfaceYaml (inetNtop : InetNtop) (iface : LifInterface) : Str :=
  lifYamlWrite (yamlInterface inetNtop iface) true

def eniVariables (inetNtop : InetNtop) (vars : LifDict VarData) : Str :=
  vars.flatMap fun entry =>
    match printedValue inetNtop entry with
    | none => str "  # warning: failed to unparse address\n"
    | some value => str "  " ++ entry.1 ++ str " " ++ value ++ str "\n"

def eniStanza (inetNtop : InetNtop) (iface : LifInterface) : Str :=
  (if iface.isAuto then str "auto " ++ iface.ifname ++ str "\n" else []) ++
    (if iface.isTemplate then str "template" else str "iface") ++ str " " ++ iface.ifname ++
    (if iface.noDefaults then str " no-defaults" else []) ++ str "\n" ++ eniVariables inetNtop iface.vars ++ str "\n"

/-- What is printed for an interface that may learn its dependencies on the way. -/
abbrev Handle := Survey → Str → Str × Survey

/-- Nothing is printed where an executor fails. -/
def prettyprintInterfaceEni (env : DependEnv) (opts : LifExecuteOpts) (inetNtop : InetNtop) : Handle := fun s ifname =>
  match lifLifecycleQueryDependents env opts s.asked (s.collection.iface ifname) with
  | none => ([], s)
  | some (asked, vars) =>
    let s := { s with asked := asked }.write ifname (fun iface => { iface with vars := vars }) (fun _ => rfl)
    (eniStanza inetNtop (s.collection.iface ifname), s)

inductive PrettyprintImpl where
  | eni | yaml
  deriving DecidableEq

def ppImplMap : List (Str × PrettyprintImpl) := [(str "ifupdown", .eni), (str "yaml-raw", .yaml)]

def PrettyprintImpl.handle (env : DependEnv) (opts : LifExecuteOpts) (inetNtop : InetNtop) : PrettyprintImpl → Handle
  | .eni => prettyprintInterfaceEni env opts inetNtop
  | .yaml => fun s ifname => (prettyprintInterfaceYaml inetNtop (s.collection.iface ifname), s)

structure IfparseOptions where
  showAll : Bool := false
  allowUndefined : Bool := false
  outputFmt : Str := str "ifupdown"
  property : Option Str := none

def showEntries (handle : Handle) : List Str → Survey → Str × Survey
  | [], s => ([], s)
  | name :: rest, s =>
    let (text, s) := handle s name
    let (later, s) := showEntries handle rest s
    (text ++ later, s)

/-- The loop over the arguments, which fails at the first that is unknown. -/
def showArguments (handle : Handle) (allowUndefined : Bool) : List Str → Survey → Bool × Str
  | [], _ => (true, [])
  | arg :: rest, s =>
    if (lifDictFind s.collection.entries arg).isSome ∨ allowUndefined then
      let (text, s) := handle { s with collection := (lifInterfaceCollectionFind s.collection arg).2 } arg
      let (ok, later) := showArguments handle allowUndefined rest s
      (ok, text ++ later)
    else (false, [])

/-- The collection that is shown, or where the command fails with a message. `none` where the fuel does not last. -/
def ifparseLoad (host : Host) (env : DependEnv) (opts : LifExecuteOpts) (fuel : Nat) (options : IfparseOptions) (interfacesFile : Str) :
    Option (Except Str Survey) :=
  match lifInterfaceFileParse host fuel {} interfacesFile with
  | none => none
  | some (false, _) => some (.error (str "could not parse " ++ interfacesFile))
  | some (true, state) =>
    let counted : Option (Option Nat × Survey) :=
      if options.property.isNone then lifLifecycleCountRdepends env opts fuel ⟨state.collection, 0⟩
      else some (some 0, ⟨state.collection, 0⟩)
    match counted with
    | none => none
    | some (none, _) => some (.error (str "could not validate dependency tree"))
    | some (some _, s) => (lifCompatApply host.config s.collection).map fun collection => .ok { s with collection := collection }

/-- Whether ifparse exits with success, and what it has printed. -/
def ifparseMain (host : Host) (env : DependEnv) (opts : LifExecuteOpts) (inetNtop : InetNtop) (fuel : Nat) (options : IfparseOptions)
    (interfacesFile : Str) (args : List Str) : Option (Bool × Str) :=
  match ifparseLoad host env opts fuel options interfacesFile with
  | none => none
  | some (.error _) => some (false, [])
  | some (.ok s) =>
    match bsearch (fun impl => strcmp options.outputFmt impl.1) ppImplMap with
    | none => some (false, [])
    | some (_, impl) =>
      let handle := impl.handle env opts inetNtop
      if options.showAll then some (true, (showEntries handle (lifDictKeys s.collection.entries) s).1)
      else if args = [] then some (false, [])
      else some (showArguments handle options.allowUndefined args s)

end Ifupdown
