import Ifupdown.Parser.Counterparts
import Ifupdown.Parser.Trailing

/-! Which addresses keep their text when blanks and a comment come behind a line. -/
namespace Ifupdown

def lineValue (line : Str) : Str := valueText (nextWord line).2.2

/-- The line stands in the stanza of that interface and gives its key that value, and the line in its place this one. -/
def Visit.Revalues (visit : Visit) (lines' : List Str) (ifname key value value' : Str) : Prop :=
  visit.state.curIface = some ifname ∧ textKind visit.line = .generic ∧ maybeRemapToken (nextWord visit.line).1 = key ∧
    lineValue visit.line = value ∧ ∃ line' ∈ lines'.head?, lineValue line' = value'

/-- Two parses stand at the same place, with collections that counterparts have led to. -/
structure Beside (host : Host) (rel : Str → Str → Str → Str → Prop) (start : Edited) (state state' : ParseState) : Prop where
  curIface : state'.curIface = state.curIface
  edited : Parallel host rel start (state.collection, state.edits) (state'.collection, state'.edits)
  loaded : state'.loaded = state.loaded

section
variable {host : Host} {rel : Str → Str → Str → Str → Prop} {start : Edited} {state state' : ParseState} {line line' behind behind' : Str}

theorem Parallel.change {x : Str} {step step' : Change}
    (parallel : Parallel host rel start (state.collection, state.edits) (state'.collection, state'.edits))
    (counterpart : Counterpart rel (.change x step) (.change x step')) (made : (Edit.change x step).Made) :
    Parallel host rel start ((state.change host x step).collection, (state.change host x step).edits)
      ((state'.change host x step').collection, (state'.change host x step').edits) := by
  have next := parallel.step counterpart made
  cases next with
  | some next => exact next

theorem lineValue_read (buffer : state.linebuf = line ++ 0 :: behind) (inside : followed line = true) :
    strAt (state.nextToken 0).2.2.linebuf ((state.nextToken 0).2.1 +
      (((state.nextToken 0).2.2.linebuf.drop (state.nextToken 0).2.1).takeWhile isSpace).length) = lineValue line := by
  have rest := nextToken_behind state 0
  rw [value_text, rest, List.drop_zero, buffer, ((nextWord_line line behind).2.2 (followed_iff.mp inside)).1, valueText_line]
  rfl

theorem generic_beside (beside : Beside host rel start state state') (kind : textKind line = .generic)
    (first : (nextWord line').1 = (nextWord line).1) (buffer : state.linebuf = line ++ 0 :: behind)
    (buffer' : state'.linebuf = line' ++ 0 :: behind') (ends : Visit.Ends ⟨line, state⟩) (ends' : Visit.Ends ⟨line', state'⟩)
    (given : ∀ ifname, state.curIface = some ifname → rel ifname (maybeRemapToken (nextWord line).1) (lineValue line) (lineValue line')) :
    Parses (Beside host rel start) (handleLine host skip state) (handleLine host skip state') := by
  have kind' : textKind line' = .generic := by
    unfold textKind at kind ⊢
    rwa [first]
  have generic := (kind_text buffer).trans kind
  have generic' := (kind_text buffer').trans kind'
  have token : (state.nextToken 0).1 = (nextWord line).1 := by
    rw [nextToken_token, List.drop_zero, buffer, (nextWord_line line behind).1]
  have token' : (state'.nextToken 0).1 = (nextWord line).1 := by
    rw [nextToken_token, List.drop_zero, buffer', (nextWord_line line' behind').1, first]
  have unknown := generic_unknown generic
  rw [token] at unknown
  have read : Beside host rel start (state.nextToken 0).2.2 (state'.nextToken 0).2.2 := ⟨beside.curIface, beside.edited, beside.loaded⟩
  unfold Visit.Ends at ends ends'
  simp only [generic] at ends
  simp only [generic'] at ends'
  rw [handleLine_generic generic, handleLine_generic generic', token, token']
  refine .some ?_
  cases current : state.curIface with
  | none =>
    have current' : state'.curIface = none := beside.curIface.trans current
    rw [handleGeneric_without (by exact current), handleGeneric_without (by exact current')]
    exact read
  | some ifname =>
    have current' : state'.curIface = some ifname := beside.curIface.trans current
    have value := lineValue_read buffer (ends.resolve_left (by rw [current]; simp))
    have value' := lineValue_read buffer' (ends'.resolve_left (by rw [current']; simp))
    have here : (state.nextToken 0).2.2.curIface = some ifname := current
    have here' : (state'.nextToken 0).2.2.curIface = some ifname := current'
    have added := read.edited.change (@Counterpart.value rel ifname _ _ _ (given ifname current)) (maybeRemapToken_fresh unknown)
    have used (executor : Str) := added.change (.same (.change ifname (.useExecutor executor))) trivial
    unfold handleGeneric
    rw [here, here']
    dsimp only
    rw [value, value']
    split
    · exact ⟨read.curIface, added, read.loaded⟩
    split
    · exact ⟨read.curIface, used _, read.loaded⟩
    · exact ⟨read.curIface, added, read.loaded⟩

theorem Beside.load (beside : Beside host rel start state state') (line line' : Str) :
    Beside host rel start (state.load line) (state'.load line') := ⟨beside.curIface, beside.edited, beside.loaded⟩

theorem Beside.enter (beside : Beside host rel start state state') (host' : Host) (name : Str) :
    Beside host rel start (state.enter host name) (state'.enter host' name) :=
  ⟨beside.curIface, beside.edited, congrArg (fun loaded => lifDictAdd loaded name ()) beside.loaded⟩

theorem enter_keys (host : Host) (name : Str) :
    lifDictKeys (state.enter host name).loaded = lifDictKeys state.loaded ++ [name] := List.map_append

theorem enter_loaded {f : Str} (host : Host) (name : Str) (known : f ∈ lifDictKeys state.loaded) :
    f ∈ lifDictKeys (state.enter host name).loaded := by
  rw [enter_keys]
  exact List.mem_append_left _ known

theorem plain_beside (beside : Beside host rel start state state') (buffer : state.linebuf = line ++ 0 :: behind)
    (buffer' : state'.linebuf = line ++ 0 :: behind') (ends : Visit.Ends ⟨line, state⟩) :
    includes host state' = includes host state ∧
      Parses (Beside host rel start) (handleLine host skip state) (handleLine host skip state') := by
  have matched : Matched (Parallel host rel start) state { state' with linebuf := state.linebuf } := ⟨beside.curIface, rfl, beside.edited⟩
  obtain ⟨same, handled⟩ := handleLine_behind beside.curIface buffer buffer' ends (matched.line parallel_uniform)
  refine ⟨same, ?_⟩
  revert handled
  generalize handleLine host skip state = parsed, handleLine host skip state' = parsed'
  intro handled
  cases handled with
  | none => exact .none
  | some alike =>
    obtain ⟨current, edited, loaded, loaded'⟩ := alike
    exact .some ⟨current, edited, by rw [loaded', loaded, beside.loaded]⟩

/-- A line with blanks behind it is handled like the line, but for the value of its key. -/
theorem padded_beside (beside : Beside host rel start state state') (buffer : state.linebuf = line ++ 0 :: behind)
    (buffer' : state'.linebuf = line' ++ 0 :: behind') (ends : Visit.Ends ⟨line, state⟩) (trim : trimmed line' = trimmed line)
    (ended : line'.getLast?.any endsWord = true)
    (given : ∀ ifname, textKind line = .generic → state.curIface = some ifname →
      rel ifname (maybeRemapToken (nextWord line).1) (lineValue line) (lineValue line')) :
    includes host state' = includes host state ∧
      Parses (Beside host rel start) (handleLine host skip state) (handleLine host skip state') := by
  obtain ⟨first, second, words⟩ := trimmed_words trim
  have ends' := ended_ends buffer' ended
  have kinds : textKind line' = textKind line := congrArg lineKind first
  by_cases generic : textKind line = .generic
  · refine ⟨?_, generic_beside beside generic first buffer buffer' ends ends' fun ifname => given ifname generic⟩
    unfold includes
    rw [kind_text buffer, kind_text buffer', kinds, generic]
  -- the state of the second parse with the line of the first one in its buffer
  obtain ⟨same, handled⟩ := @plain_beside host rel start state { state' with linebuf := state.linebuf } line behind behind
    ⟨beside.curIface, beside.edited, beside.loaded⟩ buffer buffer ends
  have ends_ : Visit.Ends ⟨line, { state' with linebuf := state.linebuf }⟩ := by
    have kept : ParseState.kind { state' with linebuf := state.linebuf } = state.kind := rfl
    unfold Visit.Ends at ends ⊢
    dsimp only at ends ⊢
    rwa [kept, beside.curIface]
  obtain ⟨-, same', isolated⟩ := @handleLine_words host { state' with linebuf := state.linebuf } state' line behind line' behind' rfl
    buffer buffer' ends_ ends' first second words fun kind => absurd kind generic
  refine ⟨same'.trans same, ?_⟩
  revert handled isolated
  generalize handleLine host skip state = parsed, handleLine host skip { state' with linebuf := state.linebuf } = parsed₁,
    handleLine host skip state' = parsed'
  intro handled isolated
  cases handled with
  | none =>
    rw [Option.map_none, Option.map_eq_none_iff] at isolated
    rw [isolated]
    exact .none
  | @some ok next next₁ alike =>
    obtain ⟨⟨ok', next'⟩, rfl, same⟩ := Option.map_eq_some_iff.mp isolated
    obtain ⟨rfl, cleared⟩ := Prod.mk.inj same
    obtain ⟨linebuf, rfl⟩ := clear_exists cleared
    exact .some ⟨alike.curIface, alike.edited, alike.loaded⟩

theorem Beside.finalize (beside : Beside host rel start state state') :
    Beside host rel start (state.finalize host) (state'.finalize host) := by
  unfold ParseState.finalize
  rw [beside.curIface]
  cases state.curIface with
  | none => exact beside
  | some ifname => exact ⟨beside.curIface, beside.edited.change (.same (.change ifname .finalize)) trivial, beside.loaded⟩

/-- Behind the opening of a file its text makes no difference any more. -/
theorem past_lockstep {f text : Str} : Lockstep host (host.replace f text)
    (fun state state' => Beside host rel start state state' ∧ f ∈ lifDictKeys state.loaded) Visit.Ends fun _ => True where
  handled beside buffer buffer' ends := by
    obtain ⟨same, handled⟩ := plain_beside beside.1 buffer buffer' ends
    rw [handleLine_replace]
    refine ⟨same, fun _ _ => trivial, handled.also fun ok next own => ?_⟩
    rw [(handleLine_placed own).loaded]
    exact beside.2
  load line beside := ⟨beside.1.load line line, beside.2⟩
  known beside _ := by rw [beside.1.loaded]
  found beside absent := Function.update_of_ne (fun same => lifDictFind_none.mp absent (by rw [same]; exact beside.2)) _ _
  report _ beside := ⟨⟨beside.1.curIface, beside.1.edited, beside.1.loaded⟩, beside.2⟩
  enter name beside := ⟨beside.1.enter _ name, enter_loaded host name beside.2⟩
  finalize {state state'} beside := ⟨beside.1.finalize, (finalize_placed state).loaded ▸ beside.2⟩
  leave beside _ := ⟨⟨beside.1.curIface, beside.1.edited, beside.1.loaded⟩, beside.2⟩

theorem counterparts_same {edits edits' : List Edit} (counterparts : List.Forall₂ (Counterpart fun _ _ _ _ => False) edits edits') :
    edits' = edits := by
  induction counterparts with
  | nil => rfl
  | cons counterpart _ ih =>
    cases counterpart with
    | same => rw [ih]
    | value given => exact given.elim

theorem beside_same (beside : Beside host (fun _ _ _ _ => False) start state state') :
    state'.collection = state.collection ∧ state'.edits = state.edits := by
  obtain ⟨-, made, made', own, own', reached, reached', counterparts, -⟩ := beside.edited
  rw [counterparts_same counterparts] at own' reached'
  exact ⟨Option.some_inj.mp (reached'.symm.trans reached), own'.trans own.symm⟩

/-- What two parses differ by: nothing up to the line that has been changed, and its value behind it. -/
inductive Divergence (spot : Visit → Prop) (lines' : List Str) (first : Edited) (f : Str) (loaded : LifDict Unit) :
    (Str → Str → Str → Str → Prop) → Edited → Prop
  | before : Divergence spot lines' first f loaded (fun _ _ _ _ => False) first
  | behind {visit : Visit} : spot visit → f ∈ lifDictKeys loaded →
    Divergence spot lines' first f loaded (visit.Revalues lines') (visit.state.collection, visit.state.edits)

def Revised (host : Host) (spot : Visit → Prop) (lines' : List Str) (first : Edited) (f : Str) (state state' : ParseState) : Prop :=
  ∃ rel start, Divergence spot lines' first f state.loaded rel start ∧ Beside host rel start state state'

variable {spot : Visit → Prop} {first : Edited} {f : Str} {lines lines' : List Str}

theorem Divergence.more {loaded loaded' : LifDict Unit} (differs : Divergence spot lines' first f loaded rel start)
    (more : f ∈ lifDictKeys loaded → f ∈ lifDictKeys loaded') : Divergence spot lines' first f loaded' rel start := by
  cases differs with
  | before => exact .before
  | behind here known => exact .behind here (more known)

theorem revised_lockstep {good : Visit → Prop} (ends : ∀ visit, good visit → visit.Ends) :
    Lockstep host host (Revised host spot lines' first f) good fun _ => True where
  handled revised buffer buffer' here := by
    obtain ⟨rel, start, differs, beside⟩ := revised
    obtain ⟨same, handled⟩ := plain_beside beside buffer buffer' (ends _ here)
    have placed := handled.also fun ok next own => (handleLine_placed own).loaded
    refine ⟨same, fun _ _ => trivial, placed.imp fun next next' both => ⟨rel, start, ?_, both.1⟩⟩
    rw [both.2]
    exact differs
  load line revised := by
    obtain ⟨rel, start, differs, beside⟩ := revised
    exact ⟨rel, start, differs, beside.load line line⟩
  known revised _ := by
    obtain ⟨rel, start, differs, beside⟩ := revised
    rw [beside.loaded]
  found _ _ := rfl
  report _ revised := by
    obtain ⟨rel, start, differs, beside⟩ := revised
    exact ⟨rel, start, differs, beside.curIface, beside.edited, beside.loaded⟩
  enter name revised := by
    obtain ⟨rel, start, differs, beside⟩ := revised
    exact ⟨rel, start, differs.more (enter_loaded host name), beside.enter host name⟩
  finalize {state state'} revised := by
    obtain ⟨rel, start, differs, beside⟩ := revised
    exact ⟨rel, start, (finalize_placed state).loaded ▸ differs, beside.finalize⟩
  leave revised _ := by
    obtain ⟨rel, start, differs, beside⟩ := revised
    exact ⟨rel, start, differs, beside.curIface, beside.edited, beside.loaded⟩

theorem takeLines_place {fuel : Nat} {ok : Bool} {next : ParseState} (h : takeLines (handleLine host (lifInterfaceFileParse host fuel))
    lines state = some (ok, next)) (whole : ok = true) :
    next.curFilename = state.curFilename ∧ next.curLineno = state.curLineno + lines.length := by
  induction lines generalizing state with
  | nil =>
    cases h
    exact ⟨rfl, rfl⟩
  | cons line rest ih =>
    unfold takeLines at h
    split at h
    · cases h
    · cases h
      cases whole
    · rename_i middle handled
      obtain ⟨_, _, _, _, reads⟩ := handleLine_reads (fun _ _ _ _ => parse_reads) handled
      obtain ⟨filename, lineno⟩ := ih h
      have number : middle.curLineno = state.curLineno + 1 := reads.curLineno
      exact ⟨filename.trans reads.curFilename, by rw [lineno, number, List.length_cons]; omega⟩

theorem padded_lines {text' : Str} {fuel : Nat} {place : Str × Nat}
    (beside : Beside host (fun _ _ _ _ => False) first state state') (known : f ∈ lifDictKeys state.loaded) (padded : Padded lines lines')
    (here : (state.curFilename, state.curLineno + 1) = place)
    (visited : ∀ visit ∈ takeVisits host (lifInterfaceFileParse host fuel) (visits host fuel) lines state,
      visit.Ends ∧ (visit.place = place → spot visit)) :
    Parses (fun next next' => Revised host spot lines' first f next next' ∧ f ∈ lifDictKeys next.loaded)
      (takeLines (handleLine host (lifInterfaceFileParse host fuel)) lines state)
      (takeLines (handleLine (host.replace f text') (lifInterfaceFileParse (host.replace f text') fuel)) lines' state') := by
  have nested {rel : Str → Str → Str → Str → Prop} {start : Edited} (state state' : ParseState) (filename : Str)
      (beside : Beside host rel start state state' ∧ f ∈ lifDictKeys state.loaded) (_ : True)
      (visited : ∀ visit ∈ visits host fuel state filename, visit.Ends) :
      Parses (fun state state' => Beside host rel start state state' ∧ f ∈ lifDictKeys state.loaded)
        (lifInterfaceFileParse host fuel state filename) (lifInterfaceFileParse (host.replace f text') fuel state' filename) :=
    parse_lockstep past_lockstep beside trivial visited
  cases padded with
  | same =>
    have front := lines_lockstep (@past_lockstep host _ first f text') ⟨beside, known⟩ fun visit member => (visited visit member).1
    exact front.imp fun next next' same => ⟨⟨_, _, .before, same.1⟩, same.2⟩
  | @blank line empty =>
    have first : (nextWord line).1 = (nextWord []).1 := (@trimmed_words [] line empty).1
    have kind : (state'.load line).kind = .blank := (kind_text rfl).trans (congrArg lineKind first)
    rw [takeLines, takeLines, handleLine_blank kind]
    exact .some ⟨⟨_, _, .before, beside.curIface, beside.edited, beside.loaded⟩, known⟩
  | @longer line line' trim ended =>
    have ending : ∀ visit ∈ takeVisits host (lifInterfaceFileParse host fuel) (visits host fuel) [line] state, visit.Ends :=
      fun visit member => (visited visit member).1
    unfold takeVisits at ending visited
    obtain ⟨ends, inside⟩ := List.forall_mem_cons.mp ending
    have spots := (List.forall_mem_cons.mp visited).1.2
    obtain ⟨collection, edits⟩ := beside_same beside
    let visit : Visit := ⟨line, state.load line⟩
    have loaded : Beside host (visit.Revalues [line']) (visit.state.collection, visit.state.edits)
        (state.load line) (state'.load line') := by
      refine ⟨beside.curIface, ?_, beside.loaded⟩
      show Parallel host _ (state.collection, state.edits) (state.collection, state.edits) (state'.collection, state'.edits)
      rw [collection, edits]
      exact parallel_start
    obtain ⟨same, own⟩ := @padded_beside host _ _ _ _ line line' _ _ loaded rfl rfl ends trim ended fun ifname generic current =>
      ⟨current, generic, rfl, rfl, line', rfl, rfl⟩
    have past : Parses (fun next next' => Beside host (visit.Revalues [line']) (visit.state.collection, visit.state.edits) next next' ∧
        f ∈ lifDictKeys next.loaded) (handleLine host skip (state.load line)) (handleLine host skip (state'.load line')) :=
      own.also fun ok next handled => (handleLine_placed handled).loaded ▸ known
    rw [← @handleLine_replace host f text' skip (state'.load line')] at past
    have names : includes (host.replace f text') (state'.load line') = includes host (state.load line) := same
    have handled := handleLine_nested nested names (fun _ _ => trivial) past (List.forall_mem_append.mp inside).1
    have behind {next next' : ParseState}
        (left : Beside host (visit.Revalues [line']) (visit.state.collection, visit.state.edits) next next' ∧
          f ∈ lifDictKeys next.loaded) : Revised host spot [line'] first f next next' ∧ f ∈ lifDictKeys next.loaded :=
      ⟨⟨_, _, .behind (spots here) left.2, left.1⟩, left.2⟩
    unfold takeLines
    revert handled
    generalize handleLine host _ _ = parsed, handleLine (host.replace f text') _ _ = parsed'
    intro handled
    cases handled with
    | none => exact .none
    | @some ok next next' left => cases ok <;> exact .some (behind left)

theorem leave_revised {old old' : ParseState} {text : Str} {parsed parsed' : Option (Bool × ParseState)}
    (revised : Parses (Revised host spot lines' first f) parsed parsed') :
    Parses (Revised host spot lines' first f) (leaveFile host old parsed) (leaveFile (host.replace f text) old' parsed') := by
  cases revised with
  | none => exact .none
  | @some ok next next' revised =>
    obtain ⟨rel, start, differs, beside⟩ := revised
    cases ok with
    | false => exact .some ⟨rel, start, differs, beside.curIface, beside.edited, beside.loaded⟩
    | true =>
      have closed := beside.finalize
      exact .some ⟨rel, start, (finalize_placed next).loaded ▸ differs, closed.curIface, closed.edited, closed.loaded⟩

/-- A parse stays beside the one with the other text in that file. -/
theorem replaced_revised {text text' : Str} {before behind : List Str} (file : host.fopen f = some text)
    (original : fileLines text = before ++ lines ++ behind) (replaced : fileLines text' = before ++ lines' ++ behind)
    (padded : Padded lines lines') {fuel : Nat} {name : Str} (revised : Revised host spot lines' first f state state')
    (visited : ∀ visit ∈ visits host fuel state name, visit.Ends ∧ (visit.place = (f, before.length + 1) → spot visit)) :
    Parses (Revised host spot lines' first f) (lifInterfaceFileParse host fuel state name)
      (lifInterfaceFileParse (host.replace f text') fuel state' name) := by
  induction fuel generalizing state state' name with
  | zero => exact .none
  | succ fuel ih =>
    obtain ⟨rel, start, differs, beside⟩ := revised
    cases absent : lifDictFind state.loaded name with
    | some _ =>
      have known : (lifDictFind state.loaded name).isSome = true := by rw [absent, Option.isSome_some]
      rw [lifInterfaceFileParse, lifInterfaceFileParse, beside.loaded, if_pos known, if_pos known]
      exact .some ⟨rel, start, differs, beside.curIface, beside.edited, beside.loaded⟩
    | none =>
      have absent' : lifDictFind state'.loaded name = none := by rw [beside.loaded, absent]
      have entered := beside.enter (host.replace f text') name
      by_cases own : name = f
      · subst own
        have file' : (host.replace name text').fopen name = some text' := Function.update_self ..
        -- the file has not been opened yet, so that the two parses have been the same
        cases differs with
        | behind _ known => exact absurd known (lifDictFind_none.mp absent)
        | before =>
        have known : name ∈ lifDictKeys (state.enter host name).loaded := by
          rw [enter_keys]
          exact List.mem_append_right _ (List.mem_singleton_self _)
        rw [visits_lines absent file, original, takeVisits_append] at visited
        obtain ⟨visited, last⟩ := List.forall_mem_append.mp visited
        rw [takeVisits_append] at visited
        obtain ⟨front, middle⟩ := List.forall_mem_append.mp visited
        rw [parse_lines absent file, parse_lines absent' file', original, replaced]
        have first := lines_lockstep (@past_lockstep host _ first name text') ⟨entered, known⟩ fun visit member => (front visit member).1
        have whole := takeLines_parses first (fun next next' same => (⟨⟨_, _, .before, same.1⟩, same.2⟩ :
          Revised host spot lines' _ name next next' ∧ name ∈ lifDictKeys next.loaded)) fun next next' taken both => by
            rw [taken] at middle
            obtain ⟨filename, lineno⟩ := takeLines_place taken rfl
            have number : next.curLineno = before.length := lineno.trans (Nat.zero_add _)
            exact padded_lines both.1 both.2 padded (by rw [filename, number]; rfl) middle
        refine leave_revised (takeLines_parses whole (fun _ _ => And.left) fun next next' taken both => ?_)
        obtain ⟨⟨rel, start, differs, beside⟩, known⟩ := both
        rw [taken] at last
        have behind := lines_lockstep (@past_lockstep host rel start name text') ⟨beside, known⟩ fun visit member => (last visit member).1
        exact behind.imp fun _ _ left => ⟨rel, start, differs.more fun _ => left.2, left.1⟩
      · have same : (host.replace f text').fopen name = host.fopen name := Function.update_of_ne own _ _
        cases opened : host.fopen name with
        | none =>
          rw [lifInterfaceFileParse, lifInterfaceFileParse, absent, absent', same, opened]
          exact .some ⟨rel, start, differs, beside.curIface, beside.edited, beside.loaded⟩
        | some stream =>
          have handles : handleLine (host.replace f text') (lifInterfaceFileParse (host.replace f text') fuel) =
              handleLine host (lifInterfaceFileParse (host.replace f text') fuel) := funext fun _ => handleLine_replace
          have nested (state state' : ParseState) (filename : Str) (revised : Revised host spot lines' first f state state') (_ : True) :=
            @ih state state' filename revised
          rw [visits_lines absent opened] at visited
          rw [parse_lines absent opened, parse_lines absent' (same.trans opened), handles]
          exact leave_revised (takeLines_lockstep nested (revised_lockstep fun _ => And.left)
            ⟨rel, start, differs.more (enter_loaded host name), entered⟩ visited)

end

def Collection.cidrs (inetPton : InetPton) (inetNtop : InetNtop) (buflen : Nat) (collection : Collection) (x : Str) : List (Option Str) :=
  (collection.iface x).addresses.map fun addr => lifAddressFormatCidr inetPton inetNtop (collection.iface x) addr buflen

theorem agrees_cidrs {host : Host} {value value' : Str} {collection collection' : Collection}
    (agrees : ∀ x, (collection.iface x).Agrees (Exchanged value value' True) (collection'.iface x))
    (counts : countSetBits host.inetPton value' = countSetBits host.inetPton value)
    (inetNtop : InetNtop) (buflen : Nat) :
    collection'.cidrs host.inetPton inetNtop buflen = collection.cidrs host.inetPton inetNtop buflen := by
  funext x
  unfold Collection.cidrs LifInterface.addresses lifAddressFormatCidr
  rw [(agrees x).addresses]
  refine List.map_congr_left fun addr _ => ?_
  rw [agrees_netmask (agrees x) fun _ _ => exchanged_counts counts]

/-- Where a netmask has been exchanged since that line, the addresses are the same. -/
theorem beside_cidrs {host : Host} {visit : Visit} {lines' : List Str} {state state' : ParseState}
    (beside : Beside host (visit.Revalues lines') (visit.state.collection, visit.state.edits) state state')
    (masks : ∀ ifname value value', visit.Revalues lines' ifname (str "netmask") value value' →
      value' = value ∨ countSetBits host.inetPton value' = countSetBits host.inetPton value ∧
        NetmaskStays host value value' [ifname] visit.state.collection (state.edits.drop visit.state.edits.length))
    (inetNtop : InetNtop) (buflen : Nat) :
    state'.collection.cidrs host.inetPton inetNtop buflen = state.collection.cidrs host.inetPton inetNtop buflen := by
  obtain ⟨-, made, made', own, -, reached, reached', counterparts, legal⟩ := beside.edited
  have edits : state.edits = visit.state.edits ++ made := own
  rw [edits, List.drop_left] at masks
  have begins {carriers : List Str} {value value' : Str} (x : Str) : (visit.state.collection.iface x).Agrees
      (Exchanged value value' (x ∈ carriers)) (visit.state.collection.iface x) := ⟨rfl, List.forall₂_same.mpr fun _ _ => .inl rfl⟩
  by_cases equal : ∀ ifname value value', visit.Revalues lines' ifname (str "netmask") value value' → value' = value
  · have agrees := @counterparts_agree host visit.state.collection visit.state.collection _ _ _ made made' [] [] [] counterparts legal
      begins (fun x text text' given => .inl (equal x text text' given)) (.inl rfl) rfl reached reached'
    exact agrees_cidrs agrees rfl inetNtop buflen
  · simp only [not_forall] at equal
    obtain ⟨ifname, value, value', given, differ⟩ := equal
    obtain ⟨counts, stays⟩ := (masks ifname value value' given).resolve_left differ
    obtain ⟨current, -, -, read, line', behind, read'⟩ := given
    have agrees := counterparts_agree counterparts legal begins (fun x text text' given => .inr ?single) (.inr stays) counts reached reached'
    case single =>
      obtain ⟨current', -, -, same, other, behind', same'⟩ := given
      refine ⟨List.mem_singleton.mpr (Option.some_inj.mp (current'.symm.trans current)), same.symm.trans read, ?_⟩
      rw [Option.mem_unique behind' behind] at same'
      exact same'.symm.trans read'
    exact agrees_cidrs agrees counts inetNtop buflen

/-- Blanks and a comment behind a line leave the addresses alone if all lines end in time and, where the line gives an
interface a netmask, the netmask reads the same and no inheritance meets an equal one of it. -/
theorem addresses_kept (host : Host) (fuel : Nat) (state : ParseState) (root f before line extra eol behind : Str)
    (file : host.fopen f = some (before ++ line ++ eol ++ behind)) (start : Terminated before) (whole : Extends line extra eol behind)
    (visited : ∀ visit ∈ visits host fuel state root, visit.Ends)
    (masks : ∀ visit ∈ visits host fuel state root, visit.place = (f, (fileLines before).length + 1) → ∀ ifname value value',
      visit.Revalues (fileLines (line ++ extra ++ eol)) ifname (str "netmask") value value' →
      value' = value ∨ countSetBits host.inetPton value' = countSetBits host.inetPton value ∧
        ∀ ok last, lifInterfaceFileParse host fuel state root = some (ok, last) →
          NetmaskStays host value value' [ifname] visit.state.collection (last.edits.drop visit.state.edits.length))
    (inetNtop : InetNtop) (buflen : Nat) :
    (lifInterfaceFileParse (host.replace f (before ++ line ++ extra ++ eol ++ behind)) fuel state root).map
        (Prod.map id fun last => last.collection.cidrs host.inetPton inetNtop buflen) =
      (lifInterfaceFileParse host fuel state root).map
        (Prod.map id fun last => last.collection.cidrs host.inetPton inetNtop buflen) := by
  obtain ⟨read, read', padded⟩ := whole.padded
  have original : fileLines (before ++ line ++ eol ++ behind) = fileLines before ++ fileLines (line ++ eol) ++ fileLines behind := by
    rw [List.append_assoc, List.append_assoc, fileLines_append start, ← List.append_assoc line, read, List.append_assoc]
  have replaced : fileLines (before ++ line ++ extra ++ eol ++ behind) =
      fileLines before ++ fileLines (line ++ extra ++ eol) ++ fileLines behind := by
    have whole : before ++ line ++ extra ++ eol ++ behind = before ++ (line ++ extra ++ eol ++ behind) := by simp
    rw [whole, fileLines_append start, read', ← List.append_assoc]
  have begins : Revised host (fun visit => visit ∈ visits host fuel state root ∧ visit.place = (f, (fileLines before).length + 1))
      (fileLines (line ++ extra ++ eol)) (state.collection, state.edits) f state state := ⟨_, _, .before, rfl, parallel_start, rfl⟩
  have revised := replaced_revised file original replaced padded begins fun visit member =>
    ⟨visited visit member, fun place => ⟨member, place⟩⟩
  revert revised masks
  generalize lifInterfaceFileParse host fuel state root = parsed, lifInterfaceFileParse (host.replace f _) fuel state root = parsed'
  intro masks revised
  cases revised with
  | none => rfl
  | @some ok last last' revised =>
    refine congrArg (fun cidrs => some (ok, cidrs)) ?_
    obtain ⟨rel, from_, differs, beside⟩ := revised
    cases differs with
    | before => exact congrArg (fun collection => collection.cidrs host.inetPton inetNtop buflen) (beside_same beside).1
    | @behind visit here known =>
      refine beside_cidrs beside (fun ifname value value' given => ?_) inetNtop buflen
      exact (masks visit here.1 here.2 ifname value value' given).imp_right fun both => ⟨both.1, both.2 ok last rfl⟩

def maskPton : InetPton := fun domain text =>
  if domain = .inet ∧ text = str "255.255.0.0" then some [255, 255, 0, 0] else onePton domain text

/-- A stanza with this netmask, and one that inherits from it. -/
def masked (netmask : String) : Host :=
  { oneFile ("iface a\naddress 10.0.0.1\nnetmask " ++ netmask ++ "\niface b\ninherit a\n") with inetPton := maskPton }

theorem addresses_kept_masked :
    (lifInterfaceFileParse ((masked "16").replace (str "interfaces")
        (str "iface a\naddress 10.0.0.1\nnetmask 16 \t # /16\niface b\ninherit a\n")) 2 {} (str "interfaces")).map
        (Prod.map id fun last => last.collection.cidrs maskPton oneNtop 512) =
      (lifInterfaceFileParse (masked "16") 2 {} (str "interfaces")).map
        (Prod.map id fun last => last.collection.cidrs maskPton oneNtop 512) := by
  have whole : Extends (str "netmask 16") (str " \t # /16") [10] (str "iface b\ninherit a\n") :=
    ⟨by decide +kernel, by decide +kernel, by decide +kernel, .newline _, nofun, by decide +kernel⟩
  have ends : ∀ visit ∈ visits (masked "16") 2 {} (str "interfaces"), visit.Ends := by decide +kernel
  have read' : (fileLines (str "netmask 16" ++ str " \t # /16" ++ [10])).head? = some (str "netmask 16 \t " ++ [0]) := by decide +kernel
  have lines : ∀ visit ∈ visits (masked "16") 2 {} (str "interfaces"), visit.place = (str "interfaces", 3) →
      visit.line = str "netmask 16" ++ [0] ∧ visit.state.curIface = some (str "a") ∧
        ((lifInterfaceFileParse (masked "16") 2 {} (str "interfaces")).all fun ended =>
          decide (NetmaskStays (masked "16") (str "16") (str "16 \t ") [str "a"] visit.state.collection
            (ended.2.edits.drop visit.state.edits.length))) = true := by decide +kernel
  refine addresses_kept (masked "16") 2 {} (str "interfaces") (str "interfaces") (str "iface a\naddress 10.0.0.1\n")
    (str "netmask 16") (str " \t # /16") [10] (str "iface b\ninherit a\n") (by decide +kernel) (by decide +kernel) whole ends ?masks
    oneNtop 512
  rintro visit member place ifname value value' ⟨current, -, -, read, line', behind, readAs⟩
  obtain ⟨text, carrier, stays⟩ := lines visit member (place.trans (by decide +kernel))
  have first : value = str "16" := by
    rw [← read, text]
    decide +kernel
  have second : value' = str "16 \t " := by
    rw [← readAs, ← Option.some_inj.mp (read'.symm.trans behind)]
    decide +kernel
  have own : ifname = str "a" := Option.some_inj.mp (current.symm.trans carrier)
  subst first second own
  refine Or.inr ⟨by decide +kernel, fun ok last ended => ?_⟩
  rw [ended] at stays
  exact of_decide_eq_true stays

theorem addresses_kept_dotted :
    ¬ ∀ (host : Host) (fuel : Nat) (root f before line extra eol behind : Str),
      host.fopen f = some (before ++ line ++ eol ++ behind) → Terminated before → Extends line extra eol behind →
      (∀ visit ∈ visits host fuel {} root, visit.Ends) → ∀ (inetNtop : InetNtop) (buflen : Nat),
      (lifInterfaceFileParse (host.replace f (before ++ line ++ extra ++ eol ++ behind)) fuel {} root).map
          (Prod.map id fun last => last.collection.cidrs host.inetPton inetNtop buflen) =
        (lifInterfaceFileParse host fuel {} root).map
          (Prod.map id fun last => last.collection.cidrs host.inetPton inetNtop buflen) := by
  intro claim
  have whole : Extends (str "netmask 255.255.0.0") (str " ") [10] (str "iface b\ninherit a\n") :=
    ⟨by decide +kernel, by decide +kernel, by decide +kernel, .newline _, nofun, by decide +kernel⟩
  have ends : ∀ visit ∈ visits (masked "255.255.0.0") 2 {} (str "interfaces"), visit.Ends := by decide +kernel
  have same := claim (masked "255.255.0.0") 2 (str "interfaces") (str "interfaces") (str "iface a\naddress 10.0.0.1\n")
    (str "netmask 255.255.0.0") (str " ") [10] (str "iface b\ninherit a\n") (by decide +kernel) (by decide +kernel) whole ends oneNtop 512
  have printed := congrArg (Option.map fun parsed => parsed.2 (str "a")) same
  simp only [Option.map_map] at printed
  revert printed
  decide +kernel

end Ifupdown
