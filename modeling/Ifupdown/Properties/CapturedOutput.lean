import Mathlib.Data.List.TakeWhile
import Ifupdown.Model.Execute

/-! The output of an executor in the buffer of its caller. -/
namespace Ifupdown

def Holds (buf : Buffer) (s : Str) : Prop := strAt buf 0 = s ∧ s.length < buf.length

section
variable {s : Str} {size : Nat}

theorem strAt_filled (s : Str) (k : Nat) : strAt (s ++ List.replicate k 0) 0 = s.takeWhile fun c => c != 0 := by
  induction s with
  | nil => cases k <;> rfl
  | cons c rest ih =>
    have step (tail : Str) : strAt (c :: tail) 0 = if c != 0 then c :: strAt tail 0 else [] := List.takeWhile_cons
    rw [List.cons_append, step, ih, List.takeWhile_cons]

/-- A zeroed buffer into which some of a string has been read holds the string just if all of it fits. -/
theorem holds_filled {chunk : Str} (front : chunk <+: s) :
    Holds (chunk ++ (List.replicate size 0).drop chunk.length) s ↔ chunk = s ∧ chunk.length < size ∧ 0 ∉ chunk := by
  rw [List.drop_replicate, Holds, strAt_filled, List.length_append, List.length_replicate]
  have text (whole : chunk.takeWhile (fun c => c != 0) = chunk) : 0 ∉ chunk := by
    intro member
    rw [← whole] at member
    have nonzero := List.mem_takeWhile_imp member
    simp at nonzero
  constructor
  · intro ⟨same, fits⟩
    have shorter := (List.takeWhile_prefix (fun c => c != 0) (l := chunk)).length_le
    have whole : chunk = s := front.eq_of_length_le (by rw [← same]; exact shorter)
    subst whole
    exact ⟨rfl, by omega, text same⟩
  · intro ⟨same, fits, plain⟩
    subst same
    refine ⟨List.takeWhile_eq_self_iff.mpr fun c member => ?_, by omega⟩
    simp only [bne_iff_ne]
    exact fun zero => plain (zero ▸ member)

end

/-- The whole output is captured just if one read receives all of it, and leaves room for the NUL. -/
theorem output_captured (opts : LifExecuteOpts) (bufsize : Nat) (run : PipeRun) (real : opts.mock = false)
    (started : run.piped = true ∧ run.spawned = true) (exits : run.exited = true) (reads : run.Reads bufsize) :
    ((lifExecuteFmtWithResult opts (List.replicate bufsize 0) run).1 = true →
      Holds (lifExecuteFmtWithResult opts (List.replicate bufsize 0) run).2 run.output) ↔
    ∀ received ∈ run.received, received = run.output ∧ received.length < bufsize ∧ 0 ∉ received := by
  have unfolded : lifExecuteFmtWithResult opts (List.replicate bufsize 0) run =
      run.received.elim (false, List.replicate bufsize 0) fun received =>
        (true, received ++ (List.replicate bufsize 0).drop received.length) := by
    unfold lifExecuteFmtWithResult PipeRun.received
    rw [real, started.1, started.2, exits]
    cases run.polled with
    | false => rfl
    | true => cases run.read <;> rfl
  rw [unfolded]
  cases known : run.received with
  | none => simp
  | some received =>
    have front : received <+: run.output := by
      unfold PipeRun.received at known
      split at known
      · obtain ⟨rest, same⟩ := (reads received known).1
        refine ⟨rest ++ (run.writes.drop run.written).flatten, ?_⟩
        rw [← List.append_assoc, same, ← List.flatten_append, List.take_append_drop]
        rfl
      · rw [← Option.some_inj.mp known]
        exact List.nil_prefix
    simp only [Option.elim_some, forall_const, Option.mem_some_iff, forall_eq']
    exact holds_filled front

def oneWrite : PipeRun where
  writes := [str "eth0"]
  written := 1
  read := some (str "eth0")

theorem output_captured_oneWrite :
    Holds (lifExecuteFmtWithResult {} (List.replicate 1024 0) oneWrite).2 (str "eth0") :=
  (output_captured {} 1024 oneWrite rfl ⟨rfl, rfl⟩ rfl (by unfold PipeRun.Reads; decide)).mpr (by decide) rfl

/-- An executor that prints two names, the second one after the pipe has been read. -/
def twoWrites : PipeRun where
  writes := [str "eth0", str " eth1"]
  written := 1
  read := some (str "eth0")

theorem output_lost :
    ¬ ∀ (opts : LifExecuteOpts) (bufsize : Nat) (run : PipeRun), opts.mock = false →
      run.piped = true ∧ run.spawned = true → run.exited = true → run.Reads bufsize →
      (lifExecuteFmtWithResult opts (List.replicate bufsize 0) run).1 = true →
      Holds (lifExecuteFmtWithResult opts (List.replicate bufsize 0) run).2 run.output := by
  intro claim
  have captured := claim {} 16 twoWrites rfl ⟨rfl, rfl⟩ rfl (by unfold PipeRun.Reads; decide) rfl
  exact absurd captured.1 (by decide)

end Ifupdown
