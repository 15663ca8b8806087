import Ifupdown.Parser.Reading
import Ifupdown.Parser.Visits

/-! The lines of a file by the tokens that the handlers read of them. -/
namespace Ifupdown

def ParseState.clear (state : ParseState) : ParseState := { state with linebuf := [] }

def tokensFrom (buf : Buffer) (p : Nat) : List Str := (wordCalls ((buf.drop p).length + 1) p (buf.drop p)).map Prod.fst

/-- What `handle_inherit` does with its target. -/
def inheritTarget (host : Host) (state : ParseState) (token target : Str) : Option ParseState :=
  match state.curIface with
  | none => some (reportError state (withoutInterface token target))
  | some ifname =>
    if target = [] then
      some ((reportError state (str "iface " ++ ifname ++ str ": unspecified inherit target")).change host ifname
        .configError)
    else
      let state := state.find target
      if !host.config.allowAnyIfaceAsTemplate && !(state.collection.iface target).isTemplate then
        some ((reportError state (str "iface " ++ ifname ++ str ": could not inherit from " ++ target ++
          str "s: inheritence from non-template interface not allowed")).change host ifname .configError)
      else state.inherit host ifname target

def takeHints (host : Host) (ifname : Str) : List Str → ParseState → Option ParseState
  | [], state => some state
  | token :: rest, state =>
    if token = [] then some state
    else if token = str "dhcp" ∨ token = str "ppp" then
      takeHints host ifname rest (state.change host ifname (.useExecutor token))
    else if token = str "inherits" then
      (inheritTarget host state token (rest.headD [])).bind (takeHints host ifname rest)
    else if token = str "no-defaults" then takeHints host ifname rest (state.change host ifname .noDefaults)
    else takeHints host ifname rest state

def enterIface (host : Host) (token ifname : Str) (hints : List Str) (state : ParseState) : Option ParseState :=
  if ifname = [] then some (reportError state (token ++ str " without any other tokens"))
  else
    let state := { (state.finalize host).find ifname with curIface := some ifname }
    let state := if token = str "template" ∨ token = str "defaults" then state.change host ifname .markTemplate
      else state
    (takeHints host ifname hints state).bind fun state =>
      let iface := state.collection.iface ifname
      if !iface.isTemplate && !iface.noDefaults then
        (state.find (str "defaults")).inherit host ifname (str "defaults")
      else some state

section
variable {host : Host} {state state' : ParseState} {ifname token : Str} {buf : Buffer} {p p' : Nat}

theorem clear_exists (same : state'.clear = state.clear) : ∃ linebuf, state' = { state with linebuf := linebuf } :=
  ⟨state'.linebuf, congrArg (fun clear : ParseState => { clear with linebuf := state'.linebuf }) same⟩

theorem kind_token (other : state.kind ≠ .blank) : (state.nextToken 0).1 ≠ [] := by
  intro none
  apply other
  unfold ParseState.kind lineKind
  rw [none]
  rfl

theorem nextToken_token (state : ParseState) (p : Nat) : (state.nextToken p).1 = (nextWord (state.linebuf.drop p)).1 :=
  (lifNextTokenAt_text state.linebuf p).1

theorem nextToken_pointer (state : ParseState) (p : Nat) :
    (state.nextToken p).2.1 = p + (nextWord (state.linebuf.drop p)).2.1 + 1 :=
  (lifNextTokenAt_text state.linebuf p).2.1

theorem nextToken_behind (state : ParseState) (p : Nat) :
    (state.nextToken p).2.2.linebuf.drop (state.nextToken p).2.1 = (nextWord (state.linebuf.drop p)).2.2 :=
  (lifNextTokenAt_text state.linebuf p).2.2.1

theorem nextToken_again (state : ParseState) (p : Nat) :
    (state.nextToken p).2.2.linebuf.drop p = (state.linebuf.drop p).set (nextWord (state.linebuf.drop p)).2.1 0 :=
  (lifNextTokenAt_text state.linebuf p).2.2.2

theorem tokensFrom_cons (buf : Buffer) (p : Nat) : tokensFrom buf p =
    (nextWord (buf.drop p)).1 :: if (nextWord (buf.drop p)).1 = [] then []
      else tokensFrom (lifNextTokenAt buf p).2.2 (lifNextTokenAt buf p).2.1 := by
  obtain ⟨-, pointer, behind, -⟩ := lifNextTokenAt_text buf p
  unfold tokensFrom
  rw [behind, pointer]
  conv_lhs => unfold wordCalls
  dsimp only
  rw [List.map_cons]
  split
  · rfl
  · rename_i some_
    rw [wordCalls_enough (nextWord_shorter some_) (Nat.lt_succ_self _)]

theorem argument_text (state : ParseState) : state.argument = (nextWord (nextWord state.linebuf).2.2).1 := by
  have behind := nextToken_behind state 0
  rw [List.drop_zero] at behind
  unfold ParseState.argument
  dsimp only
  rw [nextToken_token, behind]

theorem tokensFrom_tail (some_ : (state.nextToken 0).1 ≠ []) :
    tokensFrom (state.nextToken 0).2.2.linebuf (state.nextToken 0).2.1 = (tokensFrom state.linebuf 0).tail := by
  rw [nextToken_token] at some_
  rw [tokensFrom_cons state.linebuf, if_neg some_]
  rfl

theorem tokensFrom_again (state : ParseState) (p : Nat) :
    tokensFrom (state.nextToken p).2.2.linebuf p = tokensFrom state.linebuf p := by
  unfold tokensFrom
  rw [nextToken_again, List.length_set]
  unfold wordCalls
  rw [nextWord_set]

theorem inheritTarget_linebuf (token target : Str) (linebuf : Buffer) :
    inheritTarget host { state with linebuf := linebuf } token target =
      (inheritTarget host state token target).map fun state => { state with linebuf := linebuf } := by
  unfold inheritTarget
  dsimp only
  split
  · rfl
  split
  · rfl
  by_cases refused : (!host.config.allowAnyIfaceAsTemplate &&
      !((state.find target).collection.iface target).isTemplate) = true
  · refine (if_pos refused).trans ?_
    rw [if_pos refused]
    rfl
  · refine (if_neg refused).trans ?_
    rw [if_neg refused]
    unfold ParseState.inherit
    rw [Option.map_map]
    rfl

theorem handleInherit_target : handleInherit host state token p =
    (inheritTarget host state token (state.nextToken p).1).map fun next =>
      { next with linebuf := (state.nextToken p).2.2.linebuf } :=
  inheritTarget_linebuf token (state.nextToken p).1 (state.nextToken p).2.2.linebuf

theorem hintLoop_takes {fuel : Nat} (enough : (state.linebuf.drop p).length < fuel) :
    (hintLoop host ifname fuel state p).map ParseState.clear =
      takeHints host ifname (tokensFrom state.linebuf p) state.clear := by
  induction fuel generalizing state p with
  | zero => omega
  | succ fuel ih =>
    have read : (state.nextToken p).1 = (nextWord (state.linebuf.drop p)).1 := nextToken_token state p
    have later : tokensFrom state.linebuf p = (state.nextToken p).1 :: if (state.nextToken p).1 = [] then []
        else tokensFrom (state.nextToken p).2.2.linebuf (state.nextToken p).2.1 := by
      rw [read]
      exact tokensFrom_cons state.linebuf p
    rw [later]
    unfold hintLoop takeHints
    dsimp only
    by_cases none : (state.nextToken p).1 = []
    · simp only [if_pos none]
      rfl
    simp only [if_neg none]
    have short : ((state.nextToken p).2.2.linebuf.drop (state.nextToken p).2.1).length < fuel := by
      rw [nextToken_behind]
      rw [read] at none
      have shorter := nextWord_shorter none
      omega
    have step (next : ParseState) (same : next.linebuf = (state.nextToken p).2.2.linebuf) :
        (hintLoop host ifname fuel next (state.nextToken p).2.1).map ParseState.clear =
          takeHints host ifname (tokensFrom (state.nextToken p).2.2.linebuf (state.nextToken p).2.1) next.clear := by
      rw [← same]
      exact ih (by rw [same]; exact short)
    split
    · exact step _ rfl
    split
    · -- the target stands at the pointer, where the loop reads it again
      have target : (tokensFrom (state.nextToken p).2.2.linebuf (state.nextToken p).2.1).headD [] =
          ((state.nextToken p).2.2.nextToken (state.nextToken p).2.1).1 := by
        rw [tokensFrom_cons, nextToken_token]
        rfl
      have cleared (argument : Str) : inheritTarget host state.clear (state.nextToken p).1 argument =
          (inheritTarget host (state.nextToken p).2.2 (state.nextToken p).1 argument).map ParseState.clear :=
        @inheritTarget_linebuf host (state.nextToken p).2.2 (state.nextToken p).1 argument []
      rw [handleInherit_target, target, cleared]
      cases inheritTarget host (state.nextToken p).2.2 (state.nextToken p).1
          ((state.nextToken p).2.2.nextToken (state.nextToken p).2.1).1 with
      | none => rfl
      | some next =>
        have again := tokensFrom_again (state.nextToken p).2.2 (state.nextToken p).2.1
        simp only [Option.map_some, Option.bind_some]
        rw [← again]
        refine ih ?_
        dsimp only
        rw [nextToken_again, List.length_set]
        exact short
    split
    · exact step _ rfl
    · exact step _ rfl

def ifaceTokens (token : Str) (arguments : List Str) : Str × List Str :=
  if token = str "defaults" then (str "defaults", arguments) else (arguments.headD [], arguments.tail)

theorem finalize_clear (state : ParseState) : (state.finalize host).clear = state.clear.finalize host := by
  unfold ParseState.finalize
  have same : state.clear.curIface = state.curIface := rfl
  rw [same]
  split <;> rfl

theorem inherit_clear (state : ParseState) (ifname parent : Str) :
    (state.inherit host ifname parent).map ParseState.clear = state.clear.inherit host ifname parent := by
  unfold ParseState.inherit
  rw [Option.map_map]
  rfl

/-- An `iface` line takes effect by its name and by the tokens behind it. -/
theorem handleIface_enters : (handleIface host state token p).map ParseState.clear =
    enterIface host token (ifaceTokens token (tokensFrom state.linebuf p)).1
      (ifaceTokens token (tokensFrom state.linebuf p)).2 state.clear := by
  have entered (ifname : Str) (read : ParseState) (bufp : Nat) (hints : List Str)
      (takes : ifname ≠ [] → hints = tokensFrom read.linebuf bufp) (same : read.clear = state.clear)
      (named : (if token = str "defaults" then (str "defaults", p, state) else state.nextToken p) = (ifname, bufp, read)) :
      (handleIface host state token p).map ParseState.clear = enterIface host token ifname hints state.clear := by
    unfold handleIface enterIface
    rw [named, ← same]
    dsimp only
    by_cases none : ifname = []
    · rw [if_pos none, if_pos none]
      rfl
    rw [if_neg none, if_neg none, takes none]
    have found : ({ (read.finalize host).find ifname with curIface := some ifname } : ParseState).clear =
        { (read.clear.finalize host).find ifname with curIface := some ifname } := by
      rw [← finalize_clear]
      rfl
    have buffer : (read.finalize host).linebuf = read.linebuf := by
      unfold ParseState.finalize
      split <;> rfl
    rw [← found]
    revert buffer
    have entry : ({ (read.finalize host).find ifname with curIface := some ifname } : ParseState).linebuf =
        (read.finalize host).linebuf := rfl
    rw [← entry]
    generalize ({ (read.finalize host).find ifname with curIface := some ifname } : ParseState) = entered
    intro buffer
    have marked : (if token = str "template" ∨ token = str "defaults" then entered.change host ifname .markTemplate
        else entered).clear = if token = str "template" ∨ token = str "defaults" then
          entered.clear.change host ifname .markTemplate else entered.clear := by
      split <;> rfl
    have unread : (if token = str "template" ∨ token = str "defaults" then entered.change host ifname .markTemplate
        else entered).linebuf = read.linebuf := by
      split <;> exact buffer
    rw [← marked]
    revert unread
    generalize (if token = str "template" ∨ token = str "defaults" then entered.change host ifname .markTemplate
      else entered) = marked
    intro unread
    have taken : (hintLoop host ifname (marked.linebuf.length + 1) marked bufp).map ParseState.clear =
        takeHints host ifname (tokensFrom marked.linebuf bufp) marked.clear :=
      hintLoop_takes (by rw [List.length_drop]; omega)
    rw [unread] at taken
    rw [← taken, unread]
    cases hintLoop host ifname (read.linebuf.length + 1) marked bufp with
    | none => rfl
    | some hinted =>
      simp only [Option.map_some, Option.bind_some]
      have same : hinted.clear.collection = hinted.collection := rfl
      rw [same]
      split
      · exact inherit_clear _ _ _
      · rfl
  unfold ifaceTokens
  by_cases defaults : token = str "defaults"
  · rw [if_pos defaults]
    exact entered _ state p _ (fun _ => rfl) rfl (if_pos defaults)
  · have first : (tokensFrom state.linebuf p).headD [] = (state.nextToken p).1 := by
      rw [tokensFrom_cons, nextToken_token]
      rfl
    rw [if_neg defaults, first]
    refine entered _ (state.nextToken p).2.2 (state.nextToken p).2.1 _ (fun some_ => ?_) rfl (if_neg defaults)
    rw [nextToken_token] at some_
    rw [tokensFrom_cons, if_neg some_]
    rfl

theorem reportError_clear (err : Str) : (reportError state err).clear = reportError state.clear err := rfl

theorem change_clear (ifname : Str) (step : Change) :
    (state.change host ifname step).clear = state.clear.change host ifname step := rfl

theorem inheritTarget_clear (token target : Str) :
    (inheritTarget host state token target).map ParseState.clear = inheritTarget host state.clear token target :=
  (@inheritTarget_linebuf host state token target []).symm

theorem find_clear (ifname : Str) (current : Option Str) :
    ({ state.find ifname with curIface := current } : ParseState).clear =
      { state.clear.find ifname with curIface := current } := rfl

/-- A line with one argument takes effect by that argument. -/
theorem handle_clear {parserkw : Keyword} (one : parserkw ≠ .iface) (same : state'.clear = state.clear)
    (argument : (state'.nextToken p').1 = (state.nextToken p).1) :
    (parserkw.handle host skip state' token p').map (Prod.map id ParseState.clear) =
      (parserkw.handle host skip state token p).map (Prod.map id ParseState.clear) := by
  have alike : (state'.nextToken p').2.2.clear = (state.nextToken p).2.2.clear := same
  cases parserkw with
  | iface => exact absurd rfl one
  | inherit =>
    have target (state : ParseState) (p : Nat) : ((Keyword.inherit.handle host skip state token p).map
        (Prod.map id ParseState.clear)) = (inheritTarget host state.clear token (state.nextToken p).1).map fun next =>
          (true, next) := by
      rw [← inheritTarget_clear]
      simp only [Keyword.handle, handleInherit_target, Option.map_map]
      rfl
    rw [target, target, same, argument]
  | address | auto | hostname | gateway | use =>
    simp only [Keyword.handle, handleAddress, handleAuto, handleHostname, handleGateway, handleUse, argument, Option.map_some]
    generalize (state'.nextToken p').2.2 = read', (state.nextToken p).2.2 = read at alike
    obtain ⟨linebuf, rfl⟩ := clear_exists alike
    dsimp only
    split <;> simp [reportError_clear, change_clear, find_clear, alike]
  | source =>
    simp only [Keyword.handle, handleSource, argument]
    split
    · simp [reportError_clear, alike]
    split
    · simp [reportError_clear, alike]
    · simp [alike]
    · simp only [sourceLoop_include, includeLoop_skip]
      split <;> simp [alike]
  | sourceDirectory =>
    simp only [Keyword.handle, handleSourceDirectory, argument]
    split
    · simp [reportError_clear, alike]
    split
    · simp [reportError_clear, alike]
    · simp [directoryLoop_include, includeLoop_skip, alike]

theorem handleGeneric_clear (same : state'.clear = state.clear)
    (value : valueText (state'.linebuf.drop p') = valueText (state.linebuf.drop p)) :
    (handleGeneric host state' token p').clear = (handleGeneric host state token p).clear := by
  obtain ⟨linebuf, rfl⟩ := clear_exists same
  unfold handleGeneric
  dsimp only at value ⊢
  rw [value_text, value_text, value]
  split
  · exact same
  split
  · simp [change_clear, same]
  split <;> simp [change_clear, same]

end

theorem visits_buffer (host : Host) (fuel : Nat) (state : ParseState) (filename : Str) :
    ∀ visit ∈ visits host fuel state filename, ∃ behind, visit.state.linebuf = visit.line ++ 0 :: behind := by
  refine visits_read fun state stream linebuf rest taken => ?_
  rw [lifFgetline_stored] at taken
  dsimp only at taken
  split at taken
  · cases taken
  · cases taken
    exact ⟨_, rfl⟩

end Ifupdown
