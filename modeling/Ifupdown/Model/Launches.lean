import Ifupdown.Model.Command
import Ifupdown.Model.Ifparse
import Ifupdown.Model.StateFile

/-! ifup and ifdown from the texts that they read to the text that they write, from cmd/ifupdown.c and state.c. -/
namespace Ifupdown

/-- What outlives a process: the text of the state file, unless there is none, and what has been done to the system. -/
structure Disk where
  stateFile : Option Str
  executed : Nat := 0
  trace : List (Event Str) := []

/-- A file that cannot be opened is an empty state. -/
def lifStateReadPath (linebuf : Buffer) (stateFile : Option Str) : StateDict :=
  match stateFile with
  | none => StateDict.empty
  | some fd => lifStateRead linebuf StateDict.empty fd

def updateStateFile (opts : LifExecuteOpts) (rc : Bool) (disk : Disk) (w : World) : Bool × Disk :=
  (rc, if opts.mock then disk
    else { stateFile := some (lifStateWrite w.state), executed := w.executed, trace := w.trace })

/-- A start of ifup or ifdown: the files that it finds and the executors that it asks, what its line buffer for the state
file holds at first, its options and its command line. -/
structure Launch where
  host : Host
  depend : DependEnv
  fuel : Nat
  interfacesFile : Str
  linebuf : Buffer := []
  env : Env
  opts : LifExecuteOpts := {}
  command : Command

/-- The collection is made in the same steps as that of `ifparse_main`. -/
def Launch.load (launch : Launch) : Option (Except Str Survey) :=
  ifparseLoad launch.host launch.depend launch.opts launch.fuel {} launch.interfacesFile

/-- `ifupdown_main`, or `none` where the fuel does not last. -/
def Launch.main (launch : Launch) (disk : Disk) : Option (Bool × Disk) :=
  let state := lifStateReadPath launch.linebuf disk.stateFile
  match launch.load with
  | none => none
  | some (.error _) => some (false, disk)
  | some (.ok s) =>
    let w : World :=
      { collection := lifStateSync state s.collection, state := state, executed := disk.executed, trace := disk.trace }
    if !launch.command.matchOpts.isAuto && launch.command.args.isEmpty then some (false, disk)
    else
      let (rc, w) := changeInterfaces launch.env launch.opts launch.command w
      some (updateStateFile launch.opts rc disk w)

def runLaunches : List Launch → Disk → Option (List Bool × Disk)
  | [], disk => some ([], disk)
  | launch :: rest, disk =>
    match launch.main disk with
    | none => none
    | some (rc, disk) => (runLaunches rest disk).map fun (rcs, disk) => (rc :: rcs, disk)

end Ifupdown
