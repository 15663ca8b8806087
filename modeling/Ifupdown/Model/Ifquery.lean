import Ifupdown.Model.Command
import Ifupdown.Model.Ifparse
import Ifupdown.Model.StateFile

/-! The ifquery command, from cmd/ifquery.c. -/
namespace Ifupdown

structure QueryOptions extends MatchOptions where
  prettyPrint : Bool := false
  dot : Bool := false
  property : Option Str := none
  listing : Bool := false
  listingStat : Bool := false
  listingRunning : Bool := false
  allowUndefined : Bool := false

def dotNode (iface : LifInterface) : Str :=
  str "\"" ++ iface.ifname ++ str " (" ++ decimal iface.rdependsCount ++ str ")\""

def dotLine (parent : Option LifInterface) (iface : LifInterface) : Str :=
  (match parent with
    | none => []
    | some parent => dotNode parent ++ str " -> ") ++ dotNode iface ++ str "\n"

/-- The token loop of `print_interface_dot`; `print` is the recursive call. -/
def dotTokens (print : Survey → Str → Option (Str × Survey)) : List Str → Survey → Option (Str × Survey)
  | [], s => some ([], s)
  | token :: rest, s =>
    let s := { s with collection := (lifInterfaceCollectionFind s.collection token).2 }
    if (s.collection.iface token).isPending then dotTokens print rest s
    else
      match print (s.setPending token true) token with
      | none => none
      | some (text, s) =>
        match dotTokens print rest (s.setPending token false) with
        | none => none
        | some (later, s) => some (text ++ later, s)

theorem setVars_ifname (vars : LifDict VarData) (iface : LifInterface) : { iface with vars := vars }.ifname = iface.ifname := rfl

/-- `none` when the recursion is cut off by the fuel. -/
def printInterfaceDot (env : DependEnv) (opts : LifExecuteOpts) : Nat → Option Str → Survey → Str → Option (Str × Survey)
  | 0, _, _, _ => none
  | fuel + 1, parent, s, ifname =>
    match lifLifecycleQueryDependents env opts s.asked (s.collection.iface ifname) with
    | none => some ([], s)
    | some (asked, vars) =>
      let s := { s with asked := asked }.write ifname (fun iface => { iface with vars := vars }) (setVars_ifname vars)
      let line := dotLine (parent.map s.collection.iface) (s.collection.iface ifname)
      if (lifDictFind vars (str "requires")).isNone then some (line, s)
      else
        match dotTokens (printInterfaceDot env opts fuel (some ifname)) (requireIfs (s.collection.iface ifname)) s with
        | none => none
        | some (text, s) => some (line ++ text, s)

def printInterfaceProperty (inetPton : InetPton) (inetNtop : InetNtop) (iface : LifInterface) (property : Str) : Str :=
  iface.vars.flatMap fun entry =>
    if entry.1 ≠ property then []
    else if property = str "address" then
      match entry.2 with
      | .text _ => []
      | .address addr =>
        match lifAddressFormatCidr inetPton inetNtop iface addr 512 with
        | none => []
        | some buf => buf ++ str "\n"
    else entry.2.value ++ str "\n"

def listInterface (env : DependEnv) (opts : LifExecuteOpts) (inetNtop : InetNtop) (fuel : Nat) (options : QueryOptions) (s : Survey)
    (ifname : Str) : Option (Str × Survey) :=
  if options.prettyPrint then some (prettyprintInterfaceEni env opts inetNtop s ifname)
  else if options.dot then printInterfaceDot env opts fuel none s ifname
  else some (ifname ++ str "\n", s)

/-- The loop over the collection from its `i`-th entry on. Entries that are made on the way come last; `rounds` bounds
their number. -/
def listEntries (handle : Survey → Str → Option (Str × Survey)) (options : MatchOptions) : Nat → Nat → Survey → Option (Str × Survey)
  | 0, _, _ => none
  | rounds + 1, i, s =>
    match s.collection.entries[i]? with
    | none => some ([], s)
    | some (name, iface) =>
      if options.passesOver iface then listEntries handle options rounds (i + 1) s
      else
        match handle s name with
        | none => none
        | some (text, s) =>
          match listEntries handle options rounds (i + 1) s with
          | none => none
          | some (later, s) => some (text ++ later, s)

def dotHeader : Str :=
  str "digraph interfaces \x7b\n" ++ str "edge [color=blue fontname=Sans fontsize=10]\n" ++ str "node [fontname=Sans fontsize=10]\n"

def dotFooter : Str := str "\x7d\n"

def listInterfaces (env : DependEnv) (opts : LifExecuteOpts) (inetNtop : InetNtop) (fuel : Nat) (options : QueryOptions) (s : Survey) :
    Option (Str × Survey) :=
  match listEntries (listInterface env opts inetNtop fuel options) options.toMatchOptions fuel 0 s with
  | none => none
  | some (text, s) => some ((if options.dot then dotHeader else []) ++ text ++ (if options.dot then dotFooter else []), s)

/-- The patterns are matched against the names of the records. -/
def MatchOptions.passesOverName (options : MatchOptions) (key : Str) : Bool :=
  (match options.excludePattern with
    | some pattern => pattern key
    | none => false) ||
    (match options.includePattern with
      | some pattern => !pattern key
      | none => false)

def listState (options : QueryOptions) (state : StateDict) : Str :=
  state.records.flatMap fun entry =>
    if options.passesOverName entry.1 then []
    else if options.listingRunning then entry.1 ++ str "\n"
    else recordLine entry.1 entry.2 ++ str "\n"

/-- The interface that an argument stands for, and the collection, in which `--allow-undefined` makes one. -/
def queryArgument (options : QueryOptions) (state : StateDict) (s : Survey) (arg : Str) : Option (Str × Survey) :=
  match lifStateLookup state s.collection arg with
  | some ifname => some (ifname, s)
  | none =>
    if (lifDictFind s.collection.entries arg).isSome then some (arg, s)
    else if options.allowUndefined then some (arg, { s with collection := (lifInterfaceCollectionFind s.collection arg).2 })
    else none

def queryArguments (host : Host) (env : DependEnv) (opts : LifExecuteOpts) (inetNtop : InetNtop) (options : QueryOptions) (state : StateDict) :
    List Str → Survey → Bool × Str
  | [], _ => (true, [])
  | arg :: rest, s =>
    match queryArgument options state s arg with
    | none => (false, [])
    | some (ifname, s) =>
      let (text, s) := match options.property with
        | some property => (printInterfaceProperty host.inetPton inetNtop (s.collection.iface ifname) property, s)
        | none => prettyprintInterfaceEni env opts inetNtop s ifname
      let (ok, later) := queryArguments host env opts inetNtop options state rest s
      (ok, text ++ later)

/-- Whether ifquery exits with success, and what it has printed. The collection is loaded as in ifparse. -/
def ifqueryMain (host : Host) (env : DependEnv) (opts : LifExecuteOpts) (inetNtop : InetNtop) (fuel : Nat) (options : QueryOptions)
    (state : StateDict) (interfacesFile : Str) (args : List Str) : Option (Bool × Str) :=
  match ifparseLoad host env opts fuel { property := options.property } interfacesFile with
  | none => none
  | some (.error _) => some (false, [])
  | some (.ok s) =>
    if options.listing && (options.listingStat || options.listingRunning) then some (false, [])
    else if options.listing then (listInterfaces env opts inetNtop fuel options s).map fun result => (true, result.1)
    else if options.listingStat || options.listingRunning then some (true, listState options state)
    else if args = [] then some (false, [])
    else some (queryArguments host env opts inetNtop options state args s)

end Ifupdown
