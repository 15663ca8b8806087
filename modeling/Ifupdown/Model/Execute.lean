import Ifupdown.Model.Lifecycle
import Ifupdown.Model.LineReader

/-! Running a command with its output read through a pipe, from execute.c. -/
namespace Ifupdown

/-- What happens to a command that is run with a pipe: the bytes that it writes, write by write, how many of these
writes are made before the pipe is read, what `read` returns (`none` for an error), and whether the command exits with
success in time. -/
structure PipeRun where
  piped : Bool := true
  spawned : Bool := true
  writes : List Str
  written : Nat
  polled : Bool := true
  read : Option Str
  exited : Bool := true

def PipeRun.output (run : PipeRun) : Str := run.writes.flatten

/-- A read returns some of what has been written, and at the end of the output only nothing. -/
def PipeRun.Reads (run : PipeRun) (bufsize : Nat) : Prop :=
  ∀ chunk ∈ run.read, chunk <+: (run.writes.take run.written).flatten ∧ chunk.length ≤ bufsize ∧
    (run.output ≠ [] → chunk ≠ [])

def lifExecuteFmtWithResult (opts : LifExecuteOpts) (buf : Buffer) (run : PipeRun) : Bool × Buffer :=
  if opts.mock then (true, buf)
  else if !run.piped then (false, buf)
  else if !run.spawned then (false, buf)
  else if !run.polled then (run.exited, buf)
  else
    match run.read with
    | none => (false, buf)
    | some chunk => (run.exited, chunk ++ buf.drop chunk.length)

/-- What reaches the buffer, `none` after an error. -/
def PipeRun.received (run : PipeRun) : Option Str := if run.polled then run.read else some []

end Ifupdown
