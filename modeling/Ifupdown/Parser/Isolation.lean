import Ifupdown.Parser.Handling
import Ifupdown.Parser.Traced

/-! What the handlers read of the line buffer. -/
namespace Ifupdown

/-- The last byte that `strdup` reads of the value of a line. -/
def ParseState.valueEnd (state : ParseState) : Nat :=
  let (_, bufp, read) := state.nextToken 0
  let start := bufp + ((read.linebuf.drop bufp).takeWhile isSpace).length
  start + (strAt read.linebuf start).length

/-- The last bytes that the token calls, and the scan for a value, read while the line is handled. -/
def Visit.reads (visit : Visit) : List Nat :=
  let state := visit.state
  let calls := (forTokens (state.linebuf.length + 1) state.linebuf 0).map Prod.snd
  match state.kind with
  | .blank => calls.take 1
  | .generic => calls.take 1 ++ if state.curIface = none then [] else [state.valueEnd]
  | .keyword .iface => calls
  | .keyword _ => calls.take 2

/-- No byte behind the terminating NUL of the line is read. -/
def Visit.Isolated (visit : Visit) : Prop := ∀ last ∈ visit.reads, last ≤ visit.line.length

/-- The line has what its handler asks for: one that takes all tokens ends with a blank or a NUL, or has a NUL right
behind one; in others something stands behind the keyword. -/
def Visit.Ends (visit : Visit) : Prop :=
  match visit.state.kind with
  | .blank => True
  | .generic => visit.state.curIface = none ∨ followed visit.line = true
  | .keyword .iface => settles visit.line = true
  | .keyword _ => followed visit.line = true

instance (visit : Visit) : Decidable visit.Ends :=
  match kind : visit.state.kind with
  | .blank => isTrue (by unfold Visit.Ends; rw [kind]; trivial)
  | .generic => decidable_of_iff (visit.state.curIface = none ∨ followed visit.line = true) (by unfold Visit.Ends; rw [kind])
  | .keyword .iface => decidable_of_iff (settles visit.line = true) (by unfold Visit.Ends; rw [kind])
  | .keyword .address | .keyword .auto | .keyword .hostname | .keyword .gateway | .keyword .inherit | .keyword .source
  | .keyword .sourceDirectory | .keyword .use => decidable_of_iff (followed visit.line = true) (by unfold Visit.Ends; rw [kind])

def textKind (line : Str) : LineKind := lineKind (nextWord line).1

section
variable {host : Host} {state state' : ParseState} {line behind : Str}

theorem kind_text (buffer : state.linebuf = line ++ 0 :: behind) : state.kind = textKind line := by
  unfold ParseState.kind textKind
  rw [nextToken_token, buffer]
  exact congrArg lineKind (nextWord_line line behind).1

theorem argument_second (buffer : state.linebuf = line ++ 0 :: behind) (inside : followed line = true) :
    state.argument = secondWord line := by
  rw [argument_text, buffer, ((nextWord_line line behind).2.2 (followed_iff.mp inside)).1]
  exact (nextWord_line _ behind).1

theorem valueEnd_text (state : ParseState) : state.valueEnd =
    (nextWord state.linebuf).2.1 + 1 + ((nextWord state.linebuf).2.2.takeWhile isSpace).length +
      (valueText (nextWord state.linebuf).2.2).length := by
  have behind := nextToken_behind state 0
  have pointer := nextToken_pointer state 0
  rw [List.drop_zero] at behind pointer
  unfold ParseState.valueEnd
  dsimp only
  rw [value_text, behind, pointer, Nat.zero_add]

/-- The handling of a line stays in it just if the line has what its handler asks for. -/
theorem isolated_iff {visit : Visit} (buffer : visit.state.linebuf = visit.line ++ 0 :: behind) :
    visit.Isolated ↔ visit.Ends := by
  obtain ⟨word, stop, -⟩ := nextWord_line visit.line behind
  have token : (visit.state.nextToken 0).1 = (nextWord visit.line).1 := by
    rw [nextToken_token, buffer]
    exact word
  have bound := nextWord_end visit.line
  have calls : forTokens (visit.state.linebuf.length + 1) visit.state.linebuf 0 =
      wordCalls (visit.state.linebuf.length + 1) 0 (visit.line ++ 0 :: behind) := by
    rw [forTokens_calls, buffer]
    rfl
  unfold Visit.Isolated Visit.reads Visit.Ends
  dsimp only
  rw [calls]
  cases kind : visit.state.kind with
  | blank =>
    unfold wordCalls
    simp [stop, bound]
  | generic =>
    have read : visit.state.valueEnd ≤ visit.line.length ↔ followed visit.line = true := by
      rw [valueEnd_text, buffer, stop]
      exact value_inside visit.line behind
    unfold wordCalls
    by_cases none : visit.state.curIface = none
    · simp [stop, bound, none]
    · simp [stop, bound, none, read]
  | keyword parserkw =>
    have some_ : (visit.state.nextToken 0).1 ≠ [] := kind_token (by rw [kind]; simp)
    rw [token] at some_
    have two : (∀ last ∈ ((wordCalls (visit.state.linebuf.length + 1) 0 (visit.line ++ 0 :: behind)).map Prod.snd).take 2,
        last ≤ visit.line.length) ↔ followed visit.line = true := by
      have second := second_inside visit.line behind
      have size : visit.state.linebuf.length = visit.line.length + behind.length + 1 := by
        rw [buffer, List.length_append, List.length_cons, Nat.add_assoc]
      rw [size]
      unfold wordCalls
      dsimp only
      rw [word, if_neg some_]
      unfold wordCalls
      simp [stop, bound, second]
    cases parserkw with
    | iface =>
      have inside := wordCalls_inside (c := 32) (p := 0) rfl visit.line behind
        (show _ < visit.state.linebuf.length + 1 by rw [buffer]; exact Nat.lt_succ_self _)
      rw [settles_line some_, Nat.zero_add] at inside
      dsimp only
      rw [← inside]
      exact List.forall_mem_map
    | _ => exact two

theorem tokensFrom_line (buffer : state.linebuf = line ++ 0 :: behind) (some_ : (state.nextToken 0).1 ≠ [])
    (ends : settles line = true) : tokensFrom state.linebuf 0 = (wordCalls (line.length + 1) 0 line).map Prod.fst := by
  have first : (nextWord line).1 ≠ [] := by
    rw [← (nextWord_line line behind).1, ← buffer]
    rwa [nextToken_token] at some_
  have inside := wordCalls_inside (c := 32) (p := 0) rfl line behind (Nat.lt_succ_self _)
  rw [settles_line first, Nat.zero_add] at inside
  unfold tokensFrom
  rw [buffer, List.drop_zero]
  refine congrArg _ (wordCalls_line line behind (Nat.lt_succ_self _) (Nat.lt_succ_self _) ?_)
  rw [Nat.zero_add]
  exact inside.mpr ends

theorem handleGeneric_without {token : Str} {p : Nat} (none : state.curIface = none) :
    handleGeneric host state token p = state := by
  unfold handleGeneric
  rw [none]

/-- Lines that end in time, with the same words and the same value, are handled the same way. -/
theorem handleLine_words {line' behind' : Str} (same : state'.clear = state.clear) (buffer : state.linebuf = line ++ 0 :: behind)
    (buffer' : state'.linebuf = line' ++ 0 :: behind') (ends : Visit.Ends ⟨line, state⟩) (ends' : Visit.Ends ⟨line', state'⟩)
    (first : (nextWord line').1 = (nextWord line).1) (second : secondWord line' = secondWord line)
    (words : (wordCalls (line'.length + 1) 0 line').map Prod.fst = (wordCalls (line.length + 1) 0 line).map Prod.fst)
    (value : textKind line = .generic → state.curIface = none ∨ valueText (nextWord line').2.2 = valueText (nextWord line).2.2) :
    state'.kind = state.kind ∧ includes host state' = includes host state ∧
      (handleLine host skip state').map (Prod.map id ParseState.clear) =
        (handleLine host skip state).map (Prod.map id ParseState.clear) := by
  obtain ⟨word, -, rest⟩ := nextWord_line line behind
  obtain ⟨word', -, rest'⟩ := nextWord_line line' behind'
  have token : (state'.nextToken 0).1 = (state.nextToken 0).1 := by
    rw [nextToken_token, nextToken_token, buffer, buffer']
    exact (word'.trans first).trans word.symm
  have kinds : state'.kind = state.kind := by
    unfold ParseState.kind
    rw [token]
  have read : (state'.nextToken 0).2.2.clear = (state.nextToken 0).2.2.clear := same
  unfold Visit.Ends at ends ends'
  refine ⟨kinds, ?_⟩
  cases kind : state.kind with
  | blank =>
    rw [handleLine_blank kind, handleLine_blank (kinds.trans kind)]
    unfold includes
    rw [kinds, kind]
    exact ⟨rfl, congrArg (fun next => some (true, next)) read⟩
  | generic =>
    rw [handleLine_generic kind, handleLine_generic (kinds.trans kind), token]
    unfold includes
    rw [kinds, kind]
    refine ⟨rfl, congrArg (fun next => some (true, next)) ?_⟩
    have current : state'.curIface = state.curIface := (congrArg ParseState.curIface same :)
    simp only [kind, kinds.trans kind, current] at ends ends'
    have outside (none : state.curIface = none) : (handleGeneric host (state'.nextToken 0).2.2 (state.nextToken 0).1
        (state'.nextToken 0).2.1).clear = (handleGeneric host (state.nextToken 0).2.2 (state.nextToken 0).1 (state.nextToken 0).2.1).clear := by
      rw [handleGeneric_without (by exact current.trans none), handleGeneric_without (by exact none)]
      exact read
    rcases value ((kind_text buffer).symm.trans kind) with none | value
    · exact outside none
    rcases ends with none | inside
    · exact outside none
    rcases ends' with none | inside'
    · exact outside none
    refine handleGeneric_clear read ?_
    have behind_ := nextToken_behind state 0
    have behind_' := nextToken_behind state' 0
    rw [List.drop_zero] at behind_ behind_'
    rw [behind_, behind_', buffer, buffer', (rest (followed_iff.mp inside)).1, (rest' (followed_iff.mp inside')).1,
      valueText_line, valueText_line, value]
  | keyword parserkw =>
    have some_ : (state.nextToken 0).1 ≠ [] := kind_token (by rw [kind]; simp)
    rw [handleLine_keyword kind, handleLine_keyword (kinds.trans kind), token]
    unfold includes
    rw [kinds, kind]
    simp only [kind, kinds.trans kind] at ends ends'
    by_cases iface : parserkw = .iface
    · subst iface
      have some_' : (state'.nextToken 0).1 ≠ [] := by rwa [token]
      have entered (state : ParseState) : ((Keyword.iface.handle host skip (state.nextToken 0).2.2 (state.nextToken 0).1
          (state.nextToken 0).2.1).map (Prod.map id ParseState.clear)) = ((handleIface host (state.nextToken 0).2.2
            (state.nextToken 0).1 (state.nextToken 0).2.1).map ParseState.clear).map fun next => (true, next) := by
        simp only [Keyword.handle, Option.map_map]
        rfl
      have entered' := entered state'
      rw [token] at entered'
      rw [entered', entered, ← token, handleIface_enters, token, handleIface_enters, tokensFrom_tail some_,
        tokensFrom_tail some_', tokensFrom_line buffer some_ ends, tokensFrom_line buffer' some_' ends', words]
      exact ⟨rfl, congrArg _ (congrArg _ read)⟩
    · have inside : followed line = true ∧ followed line' = true := by
        cases parserkw with
        | iface => exact absurd rfl iface
        | _ => exact ⟨ends, ends'⟩
      have argument : state'.argument = state.argument := by
        rw [argument_second buffer inside.1, argument_second buffer' inside.2, second]
      rw [argument]
      exact ⟨rfl, handle_clear iface read argument⟩

/-- A line that ends in time is handled the same way whatever stands behind it. -/
theorem handleLine_isolated {behind' : Str} (same : state'.clear = state.clear) (buffer : state.linebuf = line ++ 0 :: behind)
    (buffer' : state'.linebuf = line ++ 0 :: behind') (ends : Visit.Ends ⟨line, state⟩) :
    state'.kind = state.kind ∧ includes host state' = includes host state ∧
      (handleLine host skip state').map (Prod.map id ParseState.clear) =
        (handleLine host skip state).map (Prod.map id ParseState.clear) := by
  have ends' : Visit.Ends ⟨line, state'⟩ := by
    have current : state'.curIface = state.curIface := (congrArg ParseState.curIface same :)
    unfold Visit.Ends at ends ⊢
    dsimp only at ends ⊢
    rwa [kind_text buffer', current, ← kind_text buffer]
  exact handleLine_words same buffer buffer' ends ends' rfl rfl rfl fun _ => Or.inr rfl

end

section
variable {host : Host} {stack : Str → Str} {fopen : Str → Option Str} {state : ParseState}

theorem hintLoop_files {ifname : Str} {fuel p : Nat} :
    hintLoop { host with stack := stack, fopen := fopen } ifname fuel state p = hintLoop host ifname fuel state p := by
  induction fuel generalizing state p with
  | zero => rfl
  | succ fuel ih =>
    have inherits : handleInherit { host with stack := stack, fopen := fopen } = handleInherit host := rfl
    unfold hintLoop
    simp only [ih, inherits]
    rfl

theorem handleLine_files :
    handleLine { host with stack := stack, fopen := fopen } skip state = handleLine host skip state := by
  cases kind : state.kind with
  | blank => rw [handleLine_blank kind, handleLine_blank kind]
  | generic =>
    rw [handleLine_generic kind, handleLine_generic kind]
    rfl
  | keyword parserkw =>
    rw [handleLine_keyword kind, handleLine_keyword kind]
    cases parserkw with
    | iface =>
      simp only [Keyword.handle, handleIface, hintLoop_files]
      rfl
    | source => simp only [Keyword.handle, handleSource, sourceLoop_include]
    | sourceDirectory => simp only [Keyword.handle, handleSourceDirectory, directoryLoop_include]
    | inherit | address | auto | hostname | gateway | use => rfl

end

end Ifupdown
