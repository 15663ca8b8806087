import Ifupdown.Base.Schedule
import Ifupdown.Model.Command
import Mathlib.Data.Fintype.Basic

/-! Several ifup and ifdown processes at a time. The state file is read before the lock of the
interface is taken, and written after it has been dropped. -/
namespace Ifupdown

deriving instance DecidableEq for StateDict

structure Process where
  env : Env
  opts : LifExecuteOpts := {}
  up : Bool
  arg : Str

def Process.command (proc : Process) : Command := { up := proc.up, args := [proc.arg] }

/-- The name that the lock file and the record of the process carry. -/
def Process.ifname (proc : Process) : Str := (splitAlias proc.arg).1

def Process.locks (proc : Process) : Bool := !(proc.opts.mock || proc.opts.noLock)

inductive Stage where
  | starting
  | loaded (w : World) (iface : Str)
  | locked (w : World) (iface : Str)
  | changed (rc : Bool) (w : World)
  | leaving (rc : Bool) (w : World)
  | exited (rc : Bool)

def Stage.holdsLock : Stage → Bool
  | .locked _ _ => true
  | .changed _ _ => true
  | _ => false

/-- The state file and the phases that have run, which are common to all processes, and how
far each process is. `seen` keeps the state file as each of them has read it. -/
structure Machine (ι : Type) where
  file : StateDict
  stage : ι → Stage
  seen : ι → StateDict
  trace : List (Event Str)

def Machine.start (file : StateDict) : Machine ι :=
  { file := file, stage := fun _ => .starting, seen := fun _ => file, trace := [] }

section
variable [DecidableEq ι]

def Machine.move (m : Machine ι) (p : ι) (stage : Stage) : Machine ι :=
  { m with stage := Function.update m.stage p stage }

variable [Fintype ι]

/-- `F_SETLK` fails at once when another process has the lock. -/
def Machine.grants (m : Machine ι) (procs : ι → Process) (p : ι) : Bool :=
  acquireStateLock (procs p).env (procs p).opts (procs p).ifname &&
    (!(procs p).locks ||
      decide (∀ q, q ≠ p → (procs q).ifname = (procs p).ifname → (procs q).locks = true →
        (m.stage q).holdsLock = false))

def advance (interfaces : Interfaces) (procs : ι → Process) (m : Machine ι) (p : ι) : Machine ι :=
  let proc := procs p
  match m.stage p with
  | .starting =>
    let w := ({ saved := m.file } : System).load interfaces
    let m := { m with seen := Function.update m.seen p m.file }
    match resolveArgument w proc.arg with
    | none => m.move p (.leaving false w)
    | some iface => m.move p (.loaded w iface)
  | .loaded w iface =>
    m.move p (if m.grants procs p then .locked w iface else .leaving false w)
  | .locked w iface =>
    let (rc, w') := changeInterface proc.env proc.opts w iface proc.ifname proc.up true
    { m.move p (.changed rc w') with trace := m.trace ++ w'.trace }
  | .changed rc w => m.move p (.leaving rc w)
  | .leaving rc w =>
    { m.move p (.exited rc) with file := if proc.opts.mock then m.file else w.state }
  | .exited _ => m

def Machine.run (interfaces : Interfaces) (procs : ι → Process) (m : Machine ι) (schedule : List ι) :
    Machine ι :=
  Schedule.run (advance interfaces procs) m schedule

end

/-- The exit code and the state file of a process that is alone. -/
def outcome (interfaces : Interfaces) (proc : Process) (file : StateDict) : Bool × StateDict :=
  let (rc, sys) := ifupdownMain proc.env proc.opts interfaces proc.command { saved := file }
  (rc, sys.saved)

end Ifupdown
