import Mathlib.Logic.Function.Basic
import Ifupdown.Model.WholeLines
import Ifupdown.Parser.Visits

/-! A file as the list of its lines. -/
namespace Ifupdown

/-- The lines of a stream, each as it is stored up to its last NUL. -/
def fileLinesLoop : Nat → Str → List Str
  | 0, _ => []
  | fuel + 1, stream =>
    let (line, eof, rest) := fgetlineLoop 4094 false false [] stream
    if eof && line.isEmpty then [] else (terminate line).dropLast :: fileLinesLoop fuel rest

def fileLines (stream : Str) : List Str := fileLinesLoop (stream.length + 1) stream

def ParseState.load (state : ParseState) (line : Str) : ParseState :=
  { state with linebuf := line ++ 0 :: state.linebuf.drop (line.length + 1), curLineno := state.curLineno + 1 }

def takeLines (handle : ParseState → Option (Bool × ParseState)) : List Str → ParseState → Option (Bool × ParseState)
  | [], state => some (true, state)
  | line :: rest, state =>
    match handle (state.load line) with
    | none => none
    | some (false, state) => some (false, state)
    | some (true, state) => takeLines handle rest state

section
variable {handle : ParseState → Option (Bool × ParseState)} {state : ParseState} {stream : Str}

theorem lifFgetline_loads (state : ParseState) (stream : Str) : lifFgetline state.linebuf 4096 stream =
    let (line, eof, rest) := fgetlineLoop 4094 false false [] stream
    (if eof && line.isEmpty then none else some (state.load (terminate line).dropLast).linebuf, rest) := by
  rw [lifFgetline_stored]
  unfold ParseState.load
  dsimp only
  rw [List.length_dropLast, terminate_length, Nat.add_sub_cancel]

theorem load_eq (state : ParseState) (line : Str) : ({ state with
    linebuf := (state.load line).linebuf
    curLineno := state.curLineno + 1 } : ParseState) = state.load line := rfl

theorem rest_shorter (more : ((fgetlineLoop 4094 false false [] stream).2.1 &&
    (fgetlineLoop 4094 false false [] stream).1.isEmpty) = false) :
    (fgetlineLoop 4094 false false [] stream).2.2.length < stream.length := by
  cases stream with
  | nil => exact absurd more (by decide)
  | cons c stream =>
    have enough : ([] : Str).length < 4094 := by decide
    exact Nat.lt_succ_of_le (fgetlineLoop_shorter 4094 false [] c stream enough)

theorem lineLoop_lines {fuel : Nat} (enough : stream.length < fuel) :
    lineLoop handle fuel stream state = takeLines handle (fileLinesLoop fuel stream) state := by
  induction fuel generalizing state stream with
  | zero => cases enough
  | succ fuel ih =>
    unfold lineLoop fileLinesLoop
    rw [lifFgetline_loads]
    dsimp only
    have shorter := @rest_shorter stream
    revert shorter
    generalize fgetlineLoop 4094 false false [] stream = read
    obtain ⟨line, eof, rest⟩ := read
    dsimp only
    intro shorter
    cases past : eof && line.isEmpty with
    | true => rfl
    | false =>
      have later (state : ParseState) := @ih state rest (by have := shorter past; omega)
      rw [if_neg Bool.false_ne_true, if_neg Bool.false_ne_true]
      dsimp only
      unfold takeLines
      rw [load_eq]
      rcases handle (state.load (terminate line).dropLast) with _ | ⟨_ | _, next⟩
      · rfl
      · rfl
      · exact later next

theorem fileLinesLoop_enough {fuel fuel' : Nat} (enough : stream.length < fuel) (enough' : stream.length < fuel') :
    fileLinesLoop fuel stream = fileLinesLoop fuel' stream := by
  induction fuel generalizing fuel' stream with
  | zero => cases enough
  | succ fuel ih =>
    cases fuel' with
    | zero => cases enough'
    | succ fuel' =>
      have shorter := @rest_shorter stream
      unfold fileLinesLoop
      revert shorter
      generalize fgetlineLoop 4094 false false [] stream = read
      obtain ⟨line, eof, rest⟩ := read
      dsimp only
      intro shorter
      split
      · rfl
      · rename_i more
        have shorter := shorter (Bool.eq_false_iff.mpr more)
        rw [@ih rest fuel' (by omega) (by omega)]

theorem fileLines_step (stream : Str) : fileLines stream =
    let (line, eof, rest) := fgetlineLoop 4094 false false [] stream
    if eof && line.isEmpty then [] else (terminate line).dropLast :: fileLines rest := by
  have shorter := @rest_shorter stream
  unfold fileLines
  conv => lhs; unfold fileLinesLoop
  revert shorter
  generalize fgetlineLoop 4094 false false [] stream = read
  obtain ⟨line, eof, rest⟩ := read
  dsimp only
  intro shorter
  split
  · rfl
  · rename_i more
    rw [fileLinesLoop_enough (shorter (Bool.eq_false_iff.mpr more)) (Nat.lt_succ_self _)]

/-- The lines behind the end of a line are read like those of a stream of their own. -/
theorem fileLines_append {first second : Str} (terminated : Terminated first) :
    fileLines (first ++ second) = fileLines first ++ fileLines second := by
  induction size : first.length using Nat.strong_induction_on generalizing first with
  | h n ih =>
    have apart : Apart 4094 false false [] first := terminated_apart terminated
    rw [fileLines_step (first ++ second), fileLines_step first]
    rcases apart with ⟨stored, rest, left, reads⟩ | none
    · have alone := reads []
      rw [List.append_nil, List.append_nil] at alone
      have shorter : rest.length < first.length := by
        have shorter := @rest_shorter first
        rw [alone] at shorter
        exact shorter rfl
      rw [reads, alone]
      exact congrArg _ (ih rest.length (by omega) left rfl)
    · have alone := none []
      rw [List.append_nil] at alone
      rw [none, alone]
      exact (fileLines_step second).symm

theorem lineLoop_file : lineLoop handle (stream.length + 1) stream state = takeLines handle (fileLines stream) state :=
  lineLoop_lines (Nat.lt_succ_self _)

theorem takeLines_append {first second : List Str} : takeLines handle (first ++ second) state =
    (takeLines handle first state).bind fun (more, state) => if more then takeLines handle second state else some (false, state) := by
  induction first generalizing state with
  | nil => rfl
  | cons line rest ih =>
    rw [List.cons_append, takeLines, takeLines]
    rcases handle (state.load line) with _ | ⟨_ | _, next⟩
    · rfl
    · rfl
    · exact ih

end

section
variable (host : Host) (parse : ParseState → Str → Option (Bool × ParseState)) (inner : ParseState → Str → List Visit)

def takeVisits : List Str → ParseState → List Visit
  | [], _ => []
  | line :: rest, state =>
    let nested := match handleLine host skip (state.load line) with
      | none => []
      | some (_, own) => includeVisits parse inner (includes host (state.load line)).1 (includes host (state.load line)).2 own
    let later := match handleLine host parse (state.load line) with
      | some (true, next) => takeVisits rest next
      | _ => []
    ⟨line, state.load line⟩ :: (nested ++ later)

variable {host parse inner} {state : ParseState}

theorem lineVisits_lines {fuel : Nat} {stream : Str} :
    lineVisits host parse inner fuel stream state = takeVisits host parse inner (fileLinesLoop fuel stream) state := by
  induction fuel generalizing state stream with
  | zero => rfl
  | succ fuel ih =>
    unfold lineVisits fileLinesLoop
    rw [lifFgetline_loads]
    dsimp only
    generalize fgetlineLoop 4094 false false [] stream = read
    obtain ⟨line, eof, rest⟩ := read
    dsimp only
    cases past : eof && line.isEmpty with
    | true => rfl
    | false =>
      rw [if_neg Bool.false_ne_true, if_neg Bool.false_ne_true]
      dsimp only
      unfold takeVisits
      rw [load_eq]
      dsimp only
      rcases handleLine host parse _ with _ | ⟨_ | _, next⟩
      · rfl
      · rfl
      · exact congrArg (fun later => _ :: (_ ++ later)) ih

theorem lineVisits_file {stream : Str} : lineVisits host parse inner (stream.length + 1) stream state =
    takeVisits host parse inner (fileLines stream) state := lineVisits_lines

theorem takeVisits_append {first second : List Str} : takeVisits host parse inner (first ++ second) state =
    takeVisits host parse inner first state ++ ((takeLines (handleLine host parse) first state).elim []
      fun (more, state) => if more then takeVisits host parse inner second state else []) := by
  induction first generalizing state with
  | nil => rfl
  | cons line rest ih =>
    rw [List.cons_append, takeVisits, takeVisits, takeLines]
    dsimp only
    rw [List.cons_append, List.append_assoc]
    rcases handleLine host parse (state.load line) with _ | ⟨_ | _, next⟩
    · rfl
    · rfl
    · dsimp only
      rw [ih]

end

/-- The machine with another text in one of its files. -/
def Host.replace (host : Host) (filename text : Str) : Host :=
  { host with fopen := Function.update host.fopen filename (some text) }

def ParseState.enter (host : Host) (state : ParseState) (filename : Str) : ParseState :=
  { state with
    curFilename := filename
    curLineno := 0
    loaded := lifDictAdd state.loaded filename ()
    linebuf := host.stack filename }

section
variable {host : Host} {state : ParseState} {root text : Str}

def leaveFile (host : Host) (old : ParseState) : Option (Bool × ParseState) → Option (Bool × ParseState)
  | none => none
  | some (false, last) => some (false, last.leave old)
  | some (true, last) => some (true, (last.finalize host).leave old)

theorem parse_lines {fuel : Nat} (absent : lifDictFind state.loaded root = none) (file : host.fopen root = some text) :
    lifInterfaceFileParse host (fuel + 1) state root = leaveFile host state
      (takeLines (handleLine host (lifInterfaceFileParse host fuel)) (fileLines text) (state.enter host root)) := by
  rw [lifInterfaceFileParse, absent, file, if_neg (by simp)]
  dsimp only
  rw [lineLoop_file]
  rfl

theorem visits_lines {fuel : Nat} (absent : lifDictFind state.loaded root = none) (file : host.fopen root = some text) :
    visits host (fuel + 1) state root = takeVisits host (lifInterfaceFileParse host fuel) (visits host fuel) (fileLines text)
      (state.enter host root) := by
  rw [visits, absent, file, if_neg (by simp)]
  dsimp only
  rw [lineVisits_file]
  rfl

end

end Ifupdown
