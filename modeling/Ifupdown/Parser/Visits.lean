import Mathlib.Logic.Relation
import Ifupdown.Model.InterfaceFile

/-! The lines that a parse visits, and what lies between them. -/
namespace Ifupdown

/-- How `lif_interface_file_parse` sorts the lines by their first tokens. -/
inductive LineKind where
  | blank
  | keyword (parserkw : Keyword)
  | generic
  deriving DecidableEq

def lineKind (token : Str) : LineKind :=
  if !token.head?.any isAlpha then .blank
  else
    match bsearch (fun entry => strcmp token entry.1) keywords with
    | some (_, parserkw) => .keyword parserkw
    | none => .generic

def ParseState.kind (state : ParseState) : LineKind := lineKind (state.nextToken 0).1

def ParseState.argument (state : ParseState) : Str :=
  let (_, bufp, read) := state.nextToken 0
  (read.nextToken bufp).1

def sourceNames (host : Host) (argument : Str) : List Str :=
  match host.wordexp argument with
  | some (m :: rest) => if argument = [] ∨ !host.exists_ m then [] else m :: rest
  | _ => []

def directoryNames (host : Host) (argument : Str) : List Str :=
  match host.opendir argument with
  | .ok names =>
    if argument = [] then []
    else (names.map fun name => strlcpy 4096 (argument ++ str "/" ++ name)).filter host.isReg
  | .error _ => []

/-- The files that a line includes, and whether it gives up at the first one that cannot be read. -/
def includes (host : Host) (state : ParseState) : Bool × List Str :=
  match state.kind with
  | .keyword .source => (false, sourceNames host state.argument)
  | .keyword .sourceDirectory => (true, directoryNames host state.argument)
  | _ => (false, [])

def skip (state : ParseState) (_ : Str) : Option (Bool × ParseState) := some (true, state)

/-- The loops of `handle_source` and `handle_source_directory` over the files that they include. -/
def includeLoop (parse : ParseState → Str → Option (Bool × ParseState)) (strict : Bool) :
    List Str → Bool → ParseState → Option (Bool × ParseState)
  | [], ok, state => some (ok, state)
  | name :: rest, ok, state =>
    match parse state name with
    | none => none
    | some (parsed, state) => if strict && !parsed then some (false, state) else includeLoop parse strict rest (ok && parsed) state

/-- The bytes that `lif_fgetline` has stored for a line, up to the last NUL, and the state in which the line is
handled. A newline is stored as a NUL in front of that one. -/
structure Visit where
  line : Str
  state : ParseState

section
variable (host : Host) (parse : ParseState → Str → Option (Bool × ParseState)) (inner : ParseState → Str → List Visit)

def includeVisits (strict : Bool) : List Str → ParseState → List Visit
  | [], _ => []
  | name :: rest, state =>
    inner state name ++ match parse state name with
      | none => []
      | some (parsed, state) => if strict && !parsed then [] else includeVisits strict rest state

def lineVisits : Nat → Str → ParseState → List Visit
  | 0, _, _ => []
  | fuel + 1, stream, state =>
    match lifFgetline state.linebuf 4096 stream with
    | (none, _) => []
    | (some linebuf, rest) =>
      let visited := { state with linebuf := linebuf, curLineno := state.curLineno + 1 }
      let nested := match handleLine host skip visited with
        | none => []
        | some (_, own) => includeVisits parse inner (includes host visited).1 (includes host visited).2 own
      let later := match handleLine host parse visited with
        | some (true, next) => lineVisits fuel rest next
        | _ => []
      ⟨(terminate (fgetlineLoop 4094 false false [] stream).1).dropLast, visited⟩ :: (nested ++ later)

end

/-- The lines that a parse handles, in their order. -/
def visits (host : Host) : Nat → ParseState → Str → List Visit
  | 0, _, _ => []
  | fuel + 1, state, filename =>
    if (lifDictFind state.loaded filename).isSome then []
    else
      match host.fopen filename with
      | none => []
      | some f =>
        lineVisits host (lifInterfaceFileParse host fuel) (visits host fuel) (f.length + 1) f
          { state with
            curFilename := filename
            curLineno := 0
            loaded := lifDictAdd state.loaded filename ()
            linebuf := host.stack filename }

section
variable {host : Host} {parse : ParseState → Str → Option (Bool × ParseState)} {state : ParseState}

theorem sourceLoop_include (words : List Str) (ok : Bool) :
    sourceLoop parse words ok state = includeLoop parse false words ok state := by
  induction words generalizing ok state with
  | nil => rfl
  | cons m rest ih =>
    unfold sourceLoop includeLoop
    rcases parse state m with _ | ⟨parsed, next⟩
    · rfl
    · exact ih _

theorem directoryLoop_include (sourceDirectory : Str) (names : List Str) :
    directoryLoop host parse sourceDirectory names state = includeLoop parse true
      ((names.map fun name => strlcpy 4096 (sourceDirectory ++ str "/" ++ name)).filter host.isReg) true state := by
  induction names generalizing state with
  | nil => rfl
  | cons name rest ih =>
    unfold directoryLoop
    rw [List.map_cons]
    by_cases regular : host.isReg (strlcpy 4096 (sourceDirectory ++ str "/" ++ name)) = true
    · rw [List.filter_cons_of_pos regular]
      unfold includeLoop
      dsimp only
      rw [if_pos regular]
      rcases parse state (strlcpy 4096 (sourceDirectory ++ str "/" ++ name)) with _ | ⟨_ | _, next⟩
      · rfl
      · rfl
      · exact ih
    · rw [List.filter_cons_of_neg regular]
      dsimp only
      rw [if_neg regular, ih]

theorem includeLoop_skip (strict : Bool) (names : List Str) (ok : Bool) :
    includeLoop skip strict names ok state = some (ok, state) := by
  induction names generalizing ok with
  | nil => rfl
  | cons name rest ih =>
    unfold includeLoop skip
    dsimp only
    rw [Bool.not_true, Bool.and_false, if_neg Bool.false_ne_true, Bool.and_true]
    exact ih ok

theorem handleSource_includes (bufp : Nat) : handleSource host parse state bufp =
    (handleSource host skip state bufp).bind fun (ok, own) =>
      includeLoop parse false (sourceNames host (state.nextToken bufp).1) ok own := by
  unfold handleSource sourceNames
  dsimp only
  split
  · rename_i missing
    rcases host.wordexp (state.nextToken bufp).1 with _ | ⟨_ | ⟨m, rest⟩⟩
    · rfl
    · rfl
    · simp only [missing, true_or, if_true]
      rfl
  · rename_i given
    rcases host.wordexp (state.nextToken bufp).1 with _ | ⟨_ | ⟨m, rest⟩⟩
    · rfl
    · rfl
    · simp only [sourceLoop_include, includeLoop_skip, given, false_or]
      cases host.exists_ m <;> rfl

theorem handleSourceDirectory_includes (bufp : Nat) : handleSourceDirectory host parse state bufp =
    (handleSourceDirectory host skip state bufp).bind fun (ok, own) =>
      includeLoop parse true (directoryNames host (state.nextToken bufp).1) ok own := by
  unfold handleSourceDirectory directoryNames
  dsimp only
  split
  · cases host.opendir (state.nextToken bufp).1 <;> rfl
  · cases host.opendir (state.nextToken bufp).1 with
    | error reason => rfl
    | ok names =>
      simp only [directoryLoop_include, includeLoop_skip]
      rfl

theorem handleLine_keyword {parserkw : Keyword} (kind : state.kind = .keyword parserkw) : handleLine host parse state =
    parserkw.handle host parse (state.nextToken 0).2.2 (state.nextToken 0).1 (state.nextToken 0).2.1 := by
  unfold ParseState.kind lineKind at kind
  unfold handleLine
  dsimp only
  split at kind
  · cases kind
  · rename_i letter
    rw [if_neg letter]
    generalize bsearch (fun entry => strcmp (state.nextToken 0).1 entry.1) keywords = found at kind ⊢
    rcases found with _ | ⟨keyword, parserkw⟩ <;> cases kind
    rfl

theorem keyword_listed {parserkw : Keyword} (kind : state.kind = .keyword parserkw) :
    ((state.nextToken 0).1, parserkw) ∈ keywords := by
  unfold ParseState.kind lineKind at kind
  split at kind
  · cases kind
  · split at kind <;> cases kind
    rename_i found
    obtain ⟨listed, same⟩ := bsearch_found found
    rw [strcmp_eq.mp same]
    exact listed

theorem generic_unknown (kind : state.kind = .generic) :
    bsearch (fun entry => strcmp (state.nextToken 0).1 entry.1) keywords = none := by
  unfold ParseState.kind lineKind at kind
  split at kind
  · cases kind
  · split at kind <;> cases kind
    assumption

theorem handleLine_generic (kind : state.kind = .generic) : handleLine host parse state =
    some (true, handleGeneric host (state.nextToken 0).2.2 (state.nextToken 0).1 (state.nextToken 0).2.1) := by
  unfold ParseState.kind lineKind at kind
  unfold handleLine
  dsimp only
  split at kind
  · cases kind
  · rename_i letter
    rw [if_neg letter]
    generalize bsearch (fun entry => strcmp (state.nextToken 0).1 entry.1) keywords = found at kind ⊢
    rcases found with _ | ⟨keyword, parserkw⟩ <;> cases kind
    rfl

theorem handleLine_blank (kind : state.kind = .blank) : handleLine host parse state = some (true, (state.nextToken 0).2.2) := by
  unfold ParseState.kind lineKind at kind
  unfold handleLine
  dsimp only
  split at kind
  · rename_i blank
    rw [if_pos blank]
  · split at kind <;> cases kind

/-- A line is handled for itself, and then the files that it includes are parsed. -/
theorem handleLine_includes : handleLine host parse state =
    (handleLine host skip state).bind fun (ok, own) =>
      includeLoop parse (includes host state).1 (includes host state).2 ok own := by
  unfold includes
  cases kind : state.kind with
  | blank => simp only [handleLine_blank kind, Option.bind_some, includeLoop]
  | generic => simp only [handleLine_generic kind, Option.bind_some, includeLoop]
  | keyword parserkw =>
    rw [handleLine_keyword kind, handleLine_keyword kind]
    cases parserkw with
    | source => exact handleSource_includes _
    | sourceDirectory => exact handleSourceDirectory_includes _
    | iface =>
      simp only [Keyword.handle]
      cases handleIface host (state.nextToken 0).2.2 (state.nextToken 0).1 (state.nextToken 0).2.1 <;> rfl
    | inherit =>
      simp only [Keyword.handle]
      cases handleInherit host (state.nextToken 0).2.2 (state.nextToken 0).1 (state.nextToken 0).2.1 <;> rfl
    | address | auto | hostname | gateway | use => rfl

end

structure Same (state state' : ParseState) : Prop where
  curIface : state'.curIface = state.curIface
  collection : state'.collection = state.collection
  edits : state'.edits = state.edits

/-- Between two lines at most the current interface is finalized. -/
inductive QuietStep (host : Host) : ParseState → ParseState → Prop
  | same {state state' : ParseState} : Same state state' → QuietStep host state state'
  | finalize {state : ParseState} : QuietStep host state (state.finalize host)

abbrev Quiet (host : Host) : ParseState → ParseState → Prop := Relation.ReflTransGen (QuietStep host)

/-- A run through the lines, each of which is handled for itself. -/
inductive Run (host : Host) : ParseState → List Visit → ParseState → Prop
  | done {state last : ParseState} : Quiet host state last → Run host state [] last
  | line {state own last : ParseState} {visit : Visit} {rest : List Visit} {ok : Bool} :
    Quiet host state visit.state → handleLine host skip visit.state = some (ok, own) → Run host own rest last →
      Run host state (visit :: rest) last

section
variable {host : Host} {parse : ParseState → Str → Option (Bool × ParseState)} {inner : ParseState → Str → List Visit}
  {state state' last : ParseState}

theorem Quiet.of_same (same : Same state state') : Quiet host state state' := .single (.same same)

theorem Run.after (quiet : Quiet host state state') {lines : List Visit} (run : Run host state' lines last) :
    Run host state lines last := by
  cases run with
  | done later => exact .done (quiet.trans later)
  | line later handled rest => exact .line (quiet.trans later) handled rest

theorem Run.append {first second : List Visit} (run : Run host state first state') (later : Run host state' second last) :
    Run host state (first ++ second) last := by
  induction run with
  | done quiet => exact later.after quiet
  | line quiet handled _ ih => exact .line quiet handled (ih later)

theorem Run.split {before after : List Visit} {visit : Visit} (run : Run host state (before ++ visit :: after) last) :
    ∃ ok own, Run host state before visit.state ∧ handleLine host skip visit.state = some (ok, own) ∧
      Run host own after last := by
  induction before generalizing state with
  | nil =>
    cases run with
    | line quiet handled rest => exact ⟨_, _, .done quiet, handled, rest⟩
  | cons first before ih =>
    cases run with
    | line quiet handled rest =>
      obtain ⟨ok, own, run, here, later⟩ := ih rest
      exact ⟨ok, own, .line quiet handled run, here, later⟩

section
variable (parses : ∀ (state : ParseState) (filename : Str) (ok : Bool) (state' : ParseState),
  parse state filename = some (ok, state') → Run host state (inner state filename) state')
include parses

theorem includeLoop_run {strict ok ok' : Bool} {names : List Str} (h : includeLoop parse strict names ok state = some (ok', state')) :
    Run host state (includeVisits parse inner strict names state) state' := by
  induction names generalizing state ok with
  | nil =>
    cases h
    exact .done .refl
  | cons name rest ih =>
    unfold includeLoop at h
    unfold includeVisits
    split at h
    · cases h
    · rename_i parsed next result
      refine (parses _ _ _ _ result).append ?_
      split at h
      · rename_i stop
        cases h
        rw [if_pos stop]
        exact .done .refl
      · rename_i go
        rw [if_neg go]
        exact ih h

theorem lineLoop_run {fuel : Nat} {stream : Str} {ok : Bool} (h : lineLoop (handleLine host parse) fuel stream state = some (ok, state')) :
    Run host state (lineVisits host parse inner fuel stream state) state' := by
  induction fuel generalizing state stream with
  | zero => cases h
  | succ fuel ih =>
    unfold lineLoop at h
    unfold lineVisits
    generalize lifFgetline state.linebuf 4096 stream = read at h ⊢
    rcases read with ⟨_ | linebuf, rest⟩
    · cases h
      exact .done .refl
    dsimp only at h ⊢
    generalize visited : ({ state with linebuf := linebuf, curLineno := state.curLineno + 1 } : ParseState) = line at h ⊢
    have same : Same state line := by
      rw [← visited]
      exact ⟨rfl, rfl, rfl⟩
    have whole : handleLine host parse line = _ := handleLine_includes
    rcases handled : handleLine host skip line with _ | ⟨fine, own⟩
    · rw [handled] at whole
      rw [whole] at h
      cases h
    rw [handled, Option.bind_some] at whole
    split at h
    · cases h
    · rename_i next result
      cases h
      rw [result] at whole ⊢
      have nested := includeLoop_run parses whole.symm
      refine .line (Quiet.of_same same) handled ?_
      rw [List.append_nil]
      exact nested
    · rename_i next result
      rw [result] at whole ⊢
      have nested := includeLoop_run parses whole.symm
      exact .line (Quiet.of_same same) handled (nested.append (ih h))

end

/-- A parse runs through the lines that it visits. -/
theorem parse_run {fuel : Nat} {filename : Str} {ok : Bool} (h : lifInterfaceFileParse host fuel state filename = some (ok, state')) :
    Run host state (visits host fuel state filename) state' := by
  induction fuel generalizing state state' filename ok with
  | zero => cases h
  | succ fuel ih =>
    unfold lifInterfaceFileParse at h
    unfold visits
    split at h
    · rename_i known
      cases h
      rw [if_pos known]
      exact .done (Quiet.of_same ⟨rfl, rfl, rfl⟩)
    rename_i fresh
    rw [if_neg fresh]
    generalize host.fopen filename = opened at h ⊢
    rcases opened with _ | f
    · cases h
      exact .done .refl
    dsimp only at h ⊢
    have left (last : ParseState) : Same last (last.leave state) := ⟨rfl, rfl, rfl⟩
    split at h
    · cases h
    · rename_i last result
      cases h
      have run := (lineLoop_run (fun _ _ _ _ => ih) result).append (.done (Quiet.of_same (left last)))
      rw [List.append_nil] at run
      exact run.after (Quiet.of_same (by exact ⟨rfl, rfl, rfl⟩))
    · rename_i last result
      cases h
      have closed : Quiet host last ((last.finalize host).leave state) :=
        .tail (.single .finalize) (.same (left _))
      have run := (lineLoop_run (fun _ _ _ _ => ih) result).append (.done closed)
      rw [List.append_nil] at run
      exact run.after (Quiet.of_same (by exact ⟨rfl, rfl, rfl⟩))

/-- What holds of every line as it is read, holds of all that a parse visits. -/
theorem visits_read {P : Visit → Prop} {fuel : Nat} {filename : Str} (read : ∀ (state : ParseState) (stream : Str)
    (linebuf : Buffer) (rest : Str), lifFgetline state.linebuf 4096 stream = (some linebuf, rest) →
      P ⟨(terminate (fgetlineLoop 4094 false false [] stream).1).dropLast,
        { state with linebuf := linebuf, curLineno := state.curLineno + 1 }⟩) :
    ∀ visit ∈ visits host fuel state filename, P visit := by
  induction fuel generalizing state filename with
  | zero => simp [visits]
  | succ fuel ih =>
    have included (strict : Bool) (names : List Str) (state : ParseState) :
        ∀ visit ∈ includeVisits (lifInterfaceFileParse host fuel) (visits host fuel) strict names state, P visit := by
      induction names generalizing state with
      | nil => simp [includeVisits]
      | cons name rest next =>
        unfold includeVisits
        intro visit member
        rcases List.mem_append.mp member with here | later
        · exact ih visit here
        split at later
        · cases later
        split at later
        · cases later
        · exact next _ visit later
    have lines (count : Nat) (stream : Str) (state : ParseState) :
        ∀ visit ∈ lineVisits host (lifInterfaceFileParse host fuel) (visits host fuel) count stream state, P visit := by
      induction count generalizing stream state with
      | zero => simp [lineVisits]
      | succ count next =>
        unfold lineVisits
        split
        · simp
        rename_i linebuf rest taken
        intro visit member
        rcases List.mem_cons.mp member with rfl | inside
        · exact read state stream linebuf rest taken
        rcases List.mem_append.mp inside with nested | later
        · split at nested
          · cases nested
          · exact included _ _ _ visit nested
        · split at later
          · exact next _ _ visit later
          · cases later
    unfold visits
    split
    · simp
    split
    · simp
    · exact lines _ _ _

def ParseState.Plain (state : ParseState) : Prop :=
  state.kind ≠ .keyword .source ∧ state.kind ≠ .keyword .sourceDirectory

theorem plain_includes (plain : state.Plain) : includes host state = (false, []) := by
  unfold includes
  split
  · rename_i kind
    exact absurd kind plain.1
  · rename_i kind
    exact absurd kind plain.2
  · rfl

theorem plain_ok {ok : Bool} (plain : state.Plain) (h : handleLine host skip state = some (ok, state')) : ok = true := by
  cases kind : state.kind with
  | blank =>
    rw [handleLine_blank kind] at h
    cases h
    rfl
  | generic =>
    rw [handleLine_generic kind] at h
    cases h
    rfl
  | keyword parserkw =>
    rw [handleLine_keyword kind] at h
    cases parserkw with
    | source => exact absurd kind plain.1
    | sourceDirectory => exact absurd kind plain.2
    | iface | inherit =>
      obtain ⟨own, -, same⟩ := Option.map_eq_some_iff.mp h
      cases same
      rfl
    | address | auto | hostname | gateway | use =>
      cases h
      rfl

/-- A run through the lines of one file, which includes no others. -/
inductive Straight (host : Host) : ParseState → List Visit → ParseState → Prop
  | done {state : ParseState} : Straight host state [] state
  | line {state own last : ParseState} {visit : Visit} {rest : List Visit} : Same state visit.state →
    handleLine host skip visit.state = some (true, own) → Straight host own rest last →
      Straight host state (visit :: rest) last

theorem lineLoop_straight {fuel : Nat} {stream : Str} {ok : Bool}
    (plain : ∀ visit ∈ lineVisits host parse inner fuel stream state, visit.state.Plain)
    (h : lineLoop (handleLine host parse) fuel stream state = some (ok, state')) :
    ok = true ∧ Straight host state (lineVisits host parse inner fuel stream state) state' := by
  induction fuel generalizing state stream with
  | zero => cases h
  | succ fuel ih =>
    unfold lineLoop at h
    unfold lineVisits at plain ⊢
    generalize lifFgetline state.linebuf 4096 stream = read at h plain ⊢
    rcases read with ⟨_ | linebuf, rest⟩
    · cases h
      exact ⟨rfl, .done⟩
    dsimp only at h plain ⊢
    generalize visited : ({ state with linebuf := linebuf, curLineno := state.curLineno + 1 } : ParseState) = line
      at h plain ⊢
    have same : Same state line := by
      rw [← visited]
      exact ⟨rfl, rfl, rfl⟩
    obtain ⟨first, others⟩ := List.forall_mem_cons.mp plain
    have whole : handleLine host parse line = handleLine host skip line := by
      rw [handleLine_includes, plain_includes first]
      cases handleLine host skip line <;> rfl
    rw [plain_includes first] at others ⊢
    rw [whole] at h others ⊢
    rcases handled : handleLine host skip line with _ | ⟨fine, own⟩
    · rw [handled] at h
      cases h
    have fine := plain_ok first handled
    subst fine
    rw [handled] at h others
    obtain ⟨done, later⟩ := ih others h
    exact ⟨done, .line same handled later⟩

/-- A file that includes no others is read straight on, and then the current interface is finalized. -/
theorem parse_straight {fuel : Nat} {filename : Str} {ok : Bool} (outside : state.curIface = none)
    (plain : ∀ visit ∈ visits host fuel state filename, visit.state.Plain)
    (h : lifInterfaceFileParse host fuel state filename = some (ok, state')) :
    ∃ first last, Same state first ∧ Straight host first (visits host fuel state filename) last ∧
      Same (last.finalize host) state' := by
  cases fuel with
  | zero => cases h
  | succ fuel =>
    have unchanged : state.finalize host = state := by
      unfold ParseState.finalize
      rw [outside]
    unfold lifInterfaceFileParse at h
    unfold visits at plain ⊢
    split at h
    · rename_i known
      cases h
      rw [if_pos known]
      refine ⟨state, state, ⟨rfl, rfl, rfl⟩, .done, ?_⟩
      rw [unchanged]
      exact ⟨rfl, rfl, rfl⟩
    rename_i fresh
    rw [if_neg fresh] at plain ⊢
    generalize host.fopen filename = opened at h plain ⊢
    rcases opened with _ | f
    · cases h
      refine ⟨state, state, ⟨rfl, rfl, rfl⟩, .done, ?_⟩
      rw [unchanged]
      exact ⟨rfl, rfl, rfl⟩
    dsimp only at h plain ⊢
    split at h
    · cases h
    · rename_i last result
      cases (lineLoop_straight plain result).1
    · rename_i last result
      cases h
      refine ⟨_, last, ?_, (lineLoop_straight plain result).2, ?_⟩ <;> exact ⟨rfl, rfl, rfl⟩

end

end Ifupdown
