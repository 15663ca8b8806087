import Ifupdown.Parser.Lines

/-! Two parses that go through the same lines side by side. -/
namespace Ifupdown

/-- Both parses end the same way, in related states, or neither ends. -/
inductive Parses (rel : ParseState → ParseState → Prop) : Option (Bool × ParseState) → Option (Bool × ParseState) → Prop
  | none : Parses rel none none
  | some {ok : Bool} {next next' : ParseState} : rel next next' → Parses rel (some (ok, next)) (some (ok, next'))

/-- What keeps two parses in related states: that good lines, which include good files alone, are handled alike, and that
the rest of the parser keeps them related. -/
structure Lockstep (host host' : Host) (rel : ParseState → ParseState → Prop) (good : Visit → Prop) (file : Str → Prop) :
    Prop where
  handled {state state' : ParseState} {line behind behind' : Str} : rel state state' → state.linebuf = line ++ 0 :: behind →
    state'.linebuf = line ++ 0 :: behind' → good ⟨line, state⟩ → includes host' state' = includes host state ∧
      (∀ name ∈ (includes host state).2, file name) ∧ Parses rel (handleLine host skip state) (handleLine host' skip state')
  load {state state' : ParseState} (line : Str) : rel state state' → rel (state.load line) (state'.load line)
  known {state state' : ParseState} {name : Str} : rel state state' → file name →
    (lifDictFind state'.loaded name).isSome = (lifDictFind state.loaded name).isSome
  found {state state' : ParseState} {name : Str} : rel state state' → lifDictFind state.loaded name = .none →
    host'.fopen name = host.fopen name
  report {state state' : ParseState} (err : Str) : rel state state' → rel (reportError state err) (reportError state' err)
  enter {state state' : ParseState} (name : Str) : rel state state' →
    rel { state with curFilename := name, curLineno := 0, loaded := lifDictAdd state.loaded name (), linebuf := host.stack name }
      { state' with
        curFilename := name
        curLineno := 0
        loaded := lifDictAdd state'.loaded name ()
        linebuf := host'.stack name }
  finalize {state state' : ParseState} : rel state state' → rel (state.finalize host) (state'.finalize host')
  leave {state state' old old' : ParseState} : rel state state' → rel old old' → rel (state.leave old) (state'.leave old')

section
variable {host host' : Host} {rel : ParseState → ParseState → Prop} {good : Visit → Prop} {file : Str → Prop}
  {parse parse' : ParseState → Str → Option (Bool × ParseState)} {inner : ParseState → Str → List Visit}
  {state state' : ParseState}

theorem Parses.imp {rel' : ParseState → ParseState → Prop} {parsed parsed' : Option (Bool × ParseState)}
    (parses : Parses rel parsed parsed') (weaker : ∀ next next', rel next next' → rel' next next') : Parses rel' parsed parsed' := by
  cases parses with
  | none => exact .none
  | some related => exact .some (weaker _ _ related)

theorem Parses.also {holds : ParseState → Prop} {parsed parsed' : Option (Bool × ParseState)} (parses : Parses rel parsed parsed')
    (own : ∀ ok next, parsed = .some (ok, next) → holds next) : Parses (fun next next' => rel next next' ∧ holds next) parsed parsed' := by
  cases parses with
  | none => exact .none
  | some related => exact .some ⟨related, own _ _ rfl⟩

/-- The lines behind others start from where these lead; what stops the others holds of the whole. -/
theorem takeLines_parses {rel' : ParseState → ParseState → Prop} {handle handle' : ParseState → Option (Bool × ParseState)}
    {first first' second second' : List Str} (front : Parses rel (takeLines handle first state) (takeLines handle' first' state'))
    (weaker : ∀ next next', rel next next' → rel' next next')
    (later : ∀ next next', takeLines handle first state = some (true, next) → rel next next' →
      Parses rel' (takeLines handle second next) (takeLines handle' second' next')) :
    Parses rel' (takeLines handle (first ++ second) state) (takeLines handle' (first' ++ second') state') := by
  rw [takeLines_append, takeLines_append]
  revert front later
  generalize takeLines handle first state = parsed, takeLines handle' first' state' = parsed'
  intro front later
  cases front with
  | none => exact .none
  | @some ok next next' same =>
    cases ok with
    | false => exact .some (weaker _ _ same)
    | true => exact later next next' rfl same

section
variable (alike : ∀ (state state' : ParseState) (filename : Str), rel state state' → file filename →
  (∀ visit ∈ inner state filename, good visit) → Parses rel (parse state filename) (parse' state' filename))
include alike

theorem includeLoop_lockstep {strict ok : Bool} {names : List Str} (same : rel state state') (files : ∀ name ∈ names, file name)
    (lines : ∀ visit ∈ includeVisits parse inner strict names state, good visit) :
    Parses rel (includeLoop parse strict names ok state) (includeLoop parse' strict names ok state') := by
  induction names generalizing state state' ok with
  | nil => exact .some same
  | cons name rest ih =>
    obtain ⟨listed, others⟩ := List.forall_mem_cons.mp files
    unfold includeVisits at lines
    obtain ⟨here, later⟩ := List.forall_mem_append.mp lines
    have first := alike state state' name same listed here
    unfold includeLoop
    generalize parse state name = parsed, parse' state' name = parsed' at first later
    cases first with
    | none => exact .none
    | some same =>
      dsimp only at later ⊢
      split
      · exact .some same
      · rename_i go
        rw [if_neg go] at later
        exact ih same others later

theorem handleLine_nested (names : includes host' state' = includes host state) (files : ∀ name ∈ (includes host state).2, file name)
    (own : Parses rel (handleLine host skip state) (handleLine host' skip state'))
    (nested : ∀ visit ∈ match handleLine host skip state with
        | .none => []
        | .some (_, own) => includeVisits parse inner (includes host state).1 (includes host state).2 own, good visit) :
    Parses rel (handleLine host parse state) (handleLine host' parse' state') := by
  rw [handleLine_includes, @handleLine_includes host', names]
  generalize handleLine host skip state = handled, handleLine host' skip state' = handled' at own nested
  cases own with
  | none => exact .none
  | some same => exact includeLoop_lockstep alike same files nested

variable (lockstep : Lockstep host host' rel good file)
include lockstep

theorem handleLine_lockstep {line behind behind' : Str} (same : rel state state') (buffer : state.linebuf = line ++ 0 :: behind)
    (buffer' : state'.linebuf = line ++ 0 :: behind') (here : good ⟨line, state⟩)
    (nested : ∀ visit ∈ match handleLine host skip state with
        | .none => []
        | .some (_, own) => includeVisits parse inner (includes host state).1 (includes host state).2 own, good visit) :
    Parses rel (handleLine host parse state) (handleLine host' parse' state') := by
  obtain ⟨names, files, own⟩ := lockstep.handled same buffer buffer' here
  exact handleLine_nested alike names files own nested

theorem takeLines_lockstep {lines : List Str} (same : rel state state')
    (visited : ∀ visit ∈ takeVisits host parse inner lines state, good visit) :
    Parses rel (takeLines (handleLine host parse) lines state) (takeLines (handleLine host' parse') lines state') := by
  induction lines generalizing state state' with
  | nil => exact .some same
  | cons line rest ih =>
    unfold takeVisits at visited
    obtain ⟨here, inside⟩ := List.forall_mem_cons.mp visited
    obtain ⟨nested, later⟩ := List.forall_mem_append.mp inside
    have whole := handleLine_lockstep alike lockstep (lockstep.load line same) rfl rfl here nested
    unfold takeLines
    revert whole later
    generalize handleLine host parse _ = parsed, handleLine host' parse' _ = parsed'
    intro later whole
    cases whole with
    | none => exact .none
    | @some ok next next' left =>
      cases ok with
      | false => exact .some left
      | true => exact ih left later

end

theorem parse_lockstep (lockstep : Lockstep host host' rel good file) {fuel : Nat} {filename : Str}
    (same : rel state state') (listed : file filename)
    (lines : ∀ visit ∈ visits host fuel state filename, good visit) :
    Parses rel (lifInterfaceFileParse host fuel state filename) (lifInterfaceFileParse host' fuel state' filename) := by
  induction fuel generalizing state state' filename with
  | zero => exact .none
  | succ fuel ih =>
    unfold visits at lines
    unfold lifInterfaceFileParse
    rw [lockstep.known same listed]
    split
    · exact .some (lockstep.report _ same)
    rename_i fresh
    rw [if_neg fresh] at lines
    rw [lockstep.found same (by simpa using fresh)]
    generalize host.fopen filename = opened at lines ⊢
    rcases opened with _ | f
    · exact .some same
    dsimp only at lines ⊢
    have nested (state state' : ParseState) (filename : Str) : rel state state' → file filename →
        (∀ visit ∈ visits host fuel state filename, good visit) → Parses rel (lifInterfaceFileParse host fuel state filename)
          (lifInterfaceFileParse host' fuel state' filename) := fun same listed lines => ih same listed lines
    rw [lineVisits_file] at lines
    rw [lineLoop_file, lineLoop_file]
    have entered := takeLines_lockstep nested lockstep (lockstep.enter filename same) lines
    revert entered
    generalize takeLines _ (fileLines f) _ = parsed, takeLines _ (fileLines f) _ = parsed'
    intro entered
    cases entered with
    | none => exact .none
    | @some ok last last' left =>
      cases ok with
      | false => exact .some (lockstep.leave left same)
      | true => exact .some (lockstep.leave (lockstep.finalize left) same)

theorem lines_lockstep (lockstep : Lockstep host host' rel good file) {fuel : Nat} {lines : List Str} (same : rel state state')
    (visited : ∀ visit ∈ takeVisits host (lifInterfaceFileParse host fuel) (visits host fuel) lines state, good visit) :
    Parses rel (takeLines (handleLine host (lifInterfaceFileParse host fuel)) lines state)
      (takeLines (handleLine host' (lifInterfaceFileParse host' fuel)) lines state') := by
  have nested (state state' : ParseState) (filename : Str) : rel state state' → file filename →
      (∀ visit ∈ visits host fuel state filename, good visit) → Parses rel (lifInterfaceFileParse host fuel state filename)
        (lifInterfaceFileParse host' fuel state' filename) := fun same listed lines => parse_lockstep lockstep same listed lines
  exact takeLines_lockstep nested lockstep same visited

end

end Ifupdown
