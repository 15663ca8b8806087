import Ifupdown.Model.Lifecycle

/-! The ifup and ifdown commands of cmd/ifupdown.c. -/
namespace Ifupdown

/-- `lif_lifecycle_run` on a stack that is deep enough. -/
def runToEnd (env : Env) (opts : LifExecuteOpts) (w : World) (iface lifname : Str) (up : Bool) :
    Bool × World :=
  (lifLifecycleRun env opts (lifecycleFuel w.collection) w iface lifname up).getD (false, w)

/-- False where the C function returns -2. -/
def acquireStateLock (env : Env) (opts : LifExecuteOpts) (lifname : Str) : Bool :=
  opts.mock || opts.noLock || env.lockable lifname

def World.markExplicit (w : World) (ifname iface : Str) : World :=
  let collection := w.collection.setExplicit iface
  { w with collection := collection, state := lifStateUpsert w.state ifname (collection.iface iface) }

def skipInterface (opts : LifExecuteOpts) (w : World) (iface ifname : Str) (up updateState : Bool) :
    Bool × World :=
  let interface := w.collection.iface iface
  if interface.isTemplate then (false, w)
  else if interface.hasConfigError then (!opts.force, w)
  else if opts.force then (false, w)
  else if up && interface.refcount > 0 then
    (true, if updateState then w.markExplicit ifname iface else w)
  else if !up && interface.refcount == 0 then (true, w)
  else (false, w)

def changeInterface (env : Env) (opts : LifExecuteOpts) (w : World) (iface ifname : Str)
    (up updateState : Bool) : Bool × World :=
  if !acquireStateLock env opts ifname then (false, w)
  else
    match skipInterface opts w iface ifname up updateState with
    | (true, w) => (true, w)
    | (false, w) =>
      match runToEnd env opts w iface ifname up with
      | (false, w) => (false, w)
      | (true, w) => (true, if up && updateState then w.markExplicit ifname iface else w)

structure MatchOptions where
  isAuto : Bool := false
  excludePattern : Option (Str → Bool) := none
  includePattern : Option (Str → Bool) := none

def MatchOptions.passesOver (opts : MatchOptions) (interface : LifInterface) : Bool :=
  opts.isAuto && !interface.isAuto ||
    (match opts.excludePattern with
      | some pattern => pattern interface.ifname
      | none => false) ||
    (match opts.includePattern with
      | some pattern => !pattern interface.ifname
      | none => false)

/-- The list holds the entries of the collection when the loop starts. The loop
itself adds entries only for names without a stanza, which are not auto. -/
def changeAutoInterfaces (env : Env) (opts : LifExecuteOpts) (matchOpts : MatchOptions) (up : Bool) :
    List Str → World → Bool × World
  | [], w => (true, w)
  | name :: rest, w =>
    let interface := w.collection.iface name
    if matchOpts.passesOver interface then changeAutoInterfaces env opts matchOpts up rest w
    else
      let (changed, w) := changeInterface env opts w name interface.ifname up false
      let (ret, w) := changeAutoInterfaces env opts matchOpts up rest w
      (changed && ret, w)

/-- `physical=logical` split at the first `=`; a plain name stands for both. -/
def splitAlias (arg : Str) : Str × Str :=
  let lifbuf := strlcpy 4096 arg
  if 61 ∈ lifbuf then
    (lifbuf.takeWhile (fun c => c != 61), (lifbuf.dropWhile (fun c => c != 61)).drop 1)
  else (lifbuf, lifbuf)

def resolveArgument (w : World) (arg : Str) : Option Str :=
  match lifStateLookup w.state w.collection arg with
  | some iface => some iface
  | none =>
    let lifname := (splitAlias arg).2
    if (lifDictFind w.collection.entries lifname).isSome then some lifname else none

def changeNamedInterfaces (env : Env) (opts : LifExecuteOpts) (up : Bool) :
    List Str → World → Bool × World
  | [], w => (true, w)
  | arg :: rest, w =>
    match resolveArgument w arg with
    | none => (false, w)
    | some iface =>
      match changeInterface env opts w iface (splitAlias arg).1 up true with
      | (true, w) => changeNamedInterfaces env opts up rest w
      | (false, w) => (false, w)

/-- The collection after the interfaces file has been parsed, the dependencies
counted and the compatibility glue applied. Nothing is configured or pending yet, names
have passed through a buffer of 4096 bytes, and no name is required twice. -/
structure Interfaces where
  collection : Collection
  idle : ∀ entry ∈ collection.entries, entry.2.refcount = 0 ∧ entry.2.isPending = false
  short : ∀ entry ∈ collection.entries, entry.1.length < 4096
  deduplicated : ∀ entry ∈ collection.entries, (requireIfs entry.2).Nodup

structure Command where
  up : Bool
  matchOpts : MatchOptions := {}
  args : List Str := []

/-- What outlives a process: the state file and what has been done to the system. -/
structure System where
  saved : StateDict
  executed : Nat := 0
  trace : List (Event Str) := []

def System.load (sys : System) (interfaces : Interfaces) : World :=
  { collection := lifStateSync sys.saved interfaces.collection
    state := sys.saved
    executed := sys.executed
    trace := sys.trace }

/-- The command-line loop of `ifupdown_main`, or the one behind `-a`. -/
def changeInterfaces (env : Env) (opts : LifExecuteOpts) (cmd : Command) (w : World) : Bool × World :=
  if cmd.matchOpts.isAuto then
    changeAutoInterfaces env opts cmd.matchOpts cmd.up (lifDictKeys w.collection.entries) w
  else changeNamedInterfaces env opts cmd.up cmd.args w

/-- `update_state_file_and_exit`, with a state file that can be written. -/
def updateStateFileAndExit (opts : LifExecuteOpts) (rc : Bool) (sys : System) (w : World) :
    Bool × System :=
  (rc, if opts.mock then sys else { saved := w.state, executed := w.executed, trace := w.trace })

def ifupdownMain (env : Env) (opts : LifExecuteOpts) (interfaces : Interfaces) (cmd : Command)
    (sys : System) : Bool × System :=
  if !cmd.matchOpts.isAuto && cmd.args.isEmpty then (false, sys)
  else
    let (rc, w) := changeInterfaces env opts cmd (sys.load interfaces)
    updateStateFileAndExit opts rc sys w

end Ifupdown
