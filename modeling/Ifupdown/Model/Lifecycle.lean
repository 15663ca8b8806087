import Ifupdown.Model.State

/-! Bringing interfaces up and down, from lifecycle.c and execute.c. -/
namespace Ifupdown

inductive Phase where
  | create | preUp | up | postUp | preDown | down | postDown | destroy
  deriving DecidableEq

def Phase.name : Phase → Str
  | .create => str "create"
  | .preUp => str "pre-up"
  | .up => str "up"
  | .postUp => str "post-up"
  | .preDown => str "pre-down"
  | .down => str "down"
  | .postDown => str "post-down"
  | .destroy => str "destroy"

def upPhases : List Phase := [.create, .preUp, .up, .postUp]

def downPhases : List Phase := [.preDown, .down, .postDown, .destroy]

/-- The phases an interface goes through, as an observer of the executors sees them. -/
inductive Event (α : Type) where
  | started (iface lifname : α) (phase : Phase)
  | finished (iface lifname : α) (phase : Phase) (ok : Bool)
  deriving DecidableEq

structure LifExecuteOpts where
  verbose : Bool := false
  mock : Bool := false
  noLock : Bool := false
  force : Bool := false
  executorPath : Str := str "/usr/libexec/ifupdown-ng"
  interfacesFile : Option Str := none

/-- What the process cannot decide itself: whether the `n`-th command it runs
exits with success in time, which files are executable, and which locks it gets. -/
structure Env where
  status : Nat → Str → Bool
  executable : Str → Bool
  lockable : Str → Bool

/-- The memory of a running process, with the number of commands run and the
phases entered and left so far. -/
structure World where
  collection : Collection
  state : StateDict
  executed : Nat
  trace : List (Event Str)

def World.log (w : World) (event : Event Str) : World := { w with trace := w.trace ++ [event] }

def World.setPending (w : World) (iface : Str) (pending : Bool) : World :=
  { w with collection := w.collection.setPending iface pending }

def World.refIf (w : World) (ifname iface : Str) : World :=
  let (state, interface) := lifStateRefIf w.state ifname (w.collection.iface iface)
  { w with state := state, collection := w.collection.setRefcount iface interface.refcount }

def World.unrefIf (w : World) (ifname iface : Str) : World :=
  let (state, interface) := lifStateUnrefIf w.state ifname (w.collection.iface iface)
  { w with state := state, collection := w.collection.setRefcount iface interface.refcount }

def lifExecuteFmt (env : Env) (opts : LifExecuteOpts) (w : World) (cmd : Str) : Bool × World :=
  if opts.mock then (true, w)
  else (env.status w.executed (strlcpy 4096 cmd), { w with executed := w.executed + 1 })

def lifMaybeRunExecutor (env : Env) (opts : LifExecuteOpts) (w : World) (executor : Str) :
    Bool × World :=
  let pathbuf := strlcpy 4096 (opts.executorPath ++ str "/" ++ executor)
  if env.executable pathbuf then lifExecuteFmt env opts w pathbuf else (true, w)

/-- A loop over the entries of a dictionary that leaves on the first failure. -/
def untilFailure (step : World → Str × VarData → Bool × World) :
    List (Str × VarData) → World → Bool × World
  | [], w => (true, w)
  | entry :: rest, w =>
    match step w entry with
    | (true, w) => untilFailure step rest w
    | (false, w) => (false, w)

def handleSingleExecutorForPhase (env : Env) (opts : LifExecuteOpts) (w : World)
    (entry : Str × VarData) : Bool × World :=
  if entry.1 = str "use" then lifMaybeRunExecutor env opts w entry.2.value else (true, w)

def handleExecutorsForPhase (env : Env) (opts : LifExecuteOpts) (w : World)
    (vars : LifDict VarData) (up : Bool) : Bool × World :=
  untilFailure (handleSingleExecutorForPhase env opts) (if up then vars else vars.reverse) w

def handleCommandsForPhase (env : Env) (opts : LifExecuteOpts) (w : World)
    (vars : LifDict VarData) (phase : Phase) : Bool × World :=
  untilFailure
    (fun w entry =>
      if entry.1 = phase.name then lifExecuteFmt env opts w entry.2.value else (true, w))
    vars w

/-- The result of `run-parts` in the add-on directories is ignored by the code,
so these scripts are left out. -/
def lifLifecycleRunPhase (env : Env) (opts : LifExecuteOpts) (w : World) (iface : Str)
    (phase : Phase) (lifname : Str) (up : Bool) : Bool × World :=
  let vars := (w.collection.iface iface).vars
  let (ok, w) :=
    match handleExecutorsForPhase env opts (w.log (.started iface lifname phase)) vars up with
    | (true, w) => handleCommandsForPhase env opts w vars phase
    | (false, w) => (false, w)
  (ok, w.log (.finished iface lifname phase ok))

def runPhases (env : Env) (opts : LifExecuteOpts) (iface lifname : Str) (up : Bool) :
    List Phase → World → Bool × World
  | [], w => (true, w)
  | phase :: rest, w =>
    match lifLifecycleRunPhase env opts w iface phase lifname up with
    | (true, w) => runPhases env opts iface lifname up rest w
    | (false, w) => (false, w)

/-- True if the interface can be skipped for now. -/
def handleRefcounting (w : World) (iface : Str) (up : Bool) : Bool × World :=
  let origRefcount := (w.collection.iface iface).refcount
  let ifname := (w.collection.iface iface).ifname
  let w := if up then w.refIf ifname iface else w.unrefIf ifname iface
  if up && origRefcount > 0 then (true, w)
  else if !up && (w.collection.iface iface).refcount > 1 then (true, w)
  else (false, w)

/-- The names that `handle_dependents` reads out of the first `requires` entry. -/
def requireIfs (interface : LifInterface) : List Str :=
  match lifDictFind interface.vars (str "requires") with
  | none => []
  | some requires => lifTokens (strlcpy 4096 requires.value)

/-- The token loop of `handle_dependents`; `run` is the recursive call. -/
def dependentsLoop (run : World → Str → Option (Bool × World)) (opts : LifExecuteOpts) (up : Bool) :
    List Str → World → Option (Bool × World)
  | [], w => some (true, w)
  | token :: rest, w =>
    let (interface, collection) := lifInterfaceCollectionFind w.collection token
    let w := { w with collection := collection }
    if interface.hasConfigError && !opts.force then dependentsLoop run opts up rest w
    else
      match handleRefcounting w token up with
      | (true, w) => dependentsLoop run opts up rest w
      | (false, w) =>
        if !up && (w.collection.iface token).isExplicit then dependentsLoop run opts up rest w
        else
          match run w token with
          | none => none
          | some (true, w) => dependentsLoop run opts up rest w
          | some (false, w) => some (false, w)

def handleDependents (run : World → Str → Option (Bool × World)) (opts : LifExecuteOpts)
    (parent : Str) (w : World) (up : Bool) : Option (Bool × World) :=
  if (lifDictFind (w.collection.iface parent).vars (str "requires")).isNone then some (true, w)
  else
    match dependentsLoop run opts up (requireIfs (w.collection.iface parent))
        (w.setPending parent true) with
    | none => none
    | some (ok, w) => some (ok, w.setPending parent false)

/-- `none` when the recursion is cut off by the fuel, which `lifecycleFuel` excludes. -/
def lifLifecycleRun (env : Env) (opts : LifExecuteOpts) :
    Nat → World → Str → Str → Bool → Option (Bool × World)
  | 0, _, _, _, _ => none
  | fuel + 1, w, iface, lifname, up =>
    let run := fun w iface =>
      lifLifecycleRun env opts fuel w iface (w.collection.iface iface).ifname up
    if (w.collection.iface iface).isPending then some (true, w)
    else if (w.collection.iface iface).isTemplate then some (false, w)
    else if up then
      match handleDependents run opts iface w up with
      | none => none
      | some (false, w) => some (false, w)
      | some (true, w) =>
        match runPhases env opts iface lifname up upPhases w with
        | (false, w) => some (false, w)
        | (true, w) => some (true, w.refIf lifname iface)
    else
      match runPhases env opts iface lifname up downPhases w with
      | (false, w) => some (false, w)
      | (true, w) =>
        match handleDependents run opts iface w up with
        | none => none
        | some (false, w) => some (false, w)
        | some (true, w) => some (true, w.unrefIf lifname iface)

/-- One more than the nesting that the pending flags allow. -/
def lifecycleFuel (collection : Collection) : Nat :=
  (collection.entries.flatMap (fun entry => entry.1 :: requireIfs entry.2)).length + 2

end Ifupdown
