import Ifupdown.Model.Command
import Ifupdown.Model.StateFile

/-! Bringing up with the refcount as a `size_t`: on 64 bits `lif_state_ref_if` makes 0 of the
largest count. Going down, the counts only fall, and nothing changes. -/
namespace Ifupdown

def lifStateRefIf64 (state : StateDict) (ifname : Str) (iface : LifInterface) : StateDict × LifInterface :=
  let iface := { iface with refcount := (iface.refcount + 1) % 2 ^ 64 }
  (lifStateUpsert state ifname iface, iface)

def World.refIf64 (w : World) (ifname iface : Str) : World :=
  let (state, interface) := lifStateRefIf64 w.state ifname (w.collection.iface iface)
  { w with state := state, collection := w.collection.setRefcount iface interface.refcount }

def handleRefcounting64 (w : World) (iface : Str) (up : Bool) : Bool × World :=
  let origRefcount := (w.collection.iface iface).refcount
  let ifname := (w.collection.iface iface).ifname
  let w := if up then w.refIf64 ifname iface else w.unrefIf ifname iface
  if up && origRefcount > 0 then (true, w)
  else if !up && (w.collection.iface iface).refcount > 1 then (true, w)
  else (false, w)

def dependentsLoop64 (run : World → Str → Option (Bool × World)) (opts : LifExecuteOpts) (up : Bool) :
    List Str → World → Option (Bool × World)
  | [], w => some (true, w)
  | token :: rest, w =>
    let (interface, collection) := lifInterfaceCollectionFind w.collection token
    let w := { w with collection := collection }
    if interface.hasConfigError && !opts.force then dependentsLoop64 run opts up rest w
    else
      match handleRefcounting64 w token up with
      | (true, w) => dependentsLoop64 run opts up rest w
      | (false, w) =>
        if !up && (w.collection.iface token).isExplicit then dependentsLoop64 run opts up rest w
        else
          match run w token with
          | none => none
          | some (true, w) => dependentsLoop64 run opts up rest w
          | some (false, w) => some (false, w)

def handleDependents64 (run : World → Str → Option (Bool × World)) (opts : LifExecuteOpts)
    (parent : Str) (w : World) (up : Bool) : Option (Bool × World) :=
  if (lifDictFind (w.collection.iface parent).vars (str "requires")).isNone then some (true, w)
  else
    match dependentsLoop64 run opts up (requireIfs (w.collection.iface parent))
        (w.setPending parent true) with
    | none => none
    | some (ok, w) => some (ok, w.setPending parent false)

def lifLifecycleRun64 (env : Env) (opts : LifExecuteOpts) :
    Nat → World → Str → Str → Bool → Option (Bool × World)
  | 0, _, _, _, _ => none
  | fuel + 1, w, iface, lifname, up =>
    let run := fun w iface =>
      lifLifecycleRun64 env opts fuel w iface (w.collection.iface iface).ifname up
    if (w.collection.iface iface).isPending then some (true, w)
    else if (w.collection.iface iface).isTemplate then some (false, w)
    else if up then
      match handleDependents64 run opts iface w up with
      | none => none
      | some (false, w) => some (false, w)
      | some (true, w) =>
        match runPhases env opts iface lifname up upPhases w with
        | (false, w) => some (false, w)
        | (true, w) => some (true, w.refIf64 lifname iface)
    else
      match runPhases env opts iface lifname up downPhases w with
      | (false, w) => some (false, w)
      | (true, w) =>
        match handleDependents64 run opts iface w up with
        | none => none
        | some (false, w) => some (false, w)
        | some (true, w) => some (true, w.unrefIf lifname iface)

def runToEnd64 (env : Env) (opts : LifExecuteOpts) (w : World) (iface lifname : Str) (up : Bool) : Bool × World :=
  (lifLifecycleRun64 env opts (lifecycleFuel w.collection) w iface lifname up).getD (false, w)

def changeInterface64 (env : Env) (opts : LifExecuteOpts) (w : World) (iface ifname : Str)
    (up updateState : Bool) : Bool × World :=
  if !acquireStateLock env opts ifname then (false, w)
  else
    match skipInterface opts w iface ifname up updateState with
    | (true, w) => (true, w)
    | (false, w) =>
      match runToEnd64 env opts w iface ifname up with
      | (false, w) => (false, w)
      | (true, w) => (true, if up && updateState then w.markExplicit ifname iface else w)

def changeAutoInterfaces64 (env : Env) (opts : LifExecuteOpts) (matchOpts : MatchOptions) (up : Bool) :
    List Str → World → Bool × World
  | [], w => (true, w)
  | name :: rest, w =>
    let interface := w.collection.iface name
    if matchOpts.passesOver interface then changeAutoInterfaces64 env opts matchOpts up rest w
    else
      let (changed, w) := changeInterface64 env opts w name interface.ifname up false
      let (ret, w) := changeAutoInterfaces64 env opts matchOpts up rest w
      (changed && ret, w)

def changeNamedInterfaces64 (env : Env) (opts : LifExecuteOpts) (up : Bool) :
    List Str → World → Bool × World
  | [], w => (true, w)
  | arg :: rest, w =>
    match resolveArgument w arg with
    | none => (false, w)
    | some iface =>
      match changeInterface64 env opts w iface (splitAlias arg).1 up true with
      | (true, w) => changeNamedInterfaces64 env opts up rest w
      | (false, w) => (false, w)

def changeInterfaces64 (env : Env) (opts : LifExecuteOpts) (cmd : Command) (w : World) : Bool × World :=
  if cmd.matchOpts.isAuto then
    changeAutoInterfaces64 env opts cmd.matchOpts cmd.up (lifDictKeys w.collection.entries) w
  else changeNamedInterfaces64 env opts cmd.up cmd.args w

/-- `lif_state_read` takes a count of 0 and one of `ULONG_MAX` for 1. -/
def LifStateRecord.reread (rec : LifStateRecord) : LifStateRecord :=
  { rec with refcount := readRefcount (decimal rec.refcount) }

def StateDict.reread (state : StateDict) : StateDict where
  records := state.records.map fun entry => (entry.1, entry.2.reread)
  distinct := by
    rw [lifDictKeys, List.map_map]
    exact state.distinct

def System.load64 (sys : System) (interfaces : Interfaces) : World :=
  { sys with saved := sys.saved.reread }.load interfaces

def ifupdownMain64 (env : Env) (opts : LifExecuteOpts) (interfaces : Interfaces) (cmd : Command)
    (sys : System) : Bool × System :=
  if !cmd.matchOpts.isAuto && cmd.args.isEmpty then (false, sys)
  else
    let (rc, w) := changeInterfaces64 env opts cmd (sys.load64 interfaces)
    updateStateFileAndExit opts rc sys w

end Ifupdown
