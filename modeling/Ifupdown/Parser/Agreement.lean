import Mathlib.Data.Option.Basic
import Ifupdown.Parser.Inclusion
import Ifupdown.Parser.Isolation
import Ifupdown.Parser.Lockstep

/-! Parses whose collections agree on what the handlers ask of them. -/
namespace Ifupdown

abbrev Edited := Collection × List Edit

/-- Collections that agree give the same answers to the handlers, and agree behind each edit. -/
structure Uniform (host : Host) (agree : Edited → Edited → Prop) : Prop where
  flags {edited edited' : Edited} (x : Str) : agree edited edited' →
    (edited'.1.iface x).isTemplate = (edited.1.iface x).isTemplate ∧
      (edited'.1.iface x).noDefaults = (edited.1.iface x).noDefaults
  edit {edited edited' : Edited} {edit : Edit} : edit.Made → agree edited edited' →
    Option.Rel agree ((edit.apply host edited.1).map fun collection => (collection, edited.2 ++ [edit]))
      ((edit.apply host edited'.1).map fun collection => (collection, edited'.2 ++ [edit]))

structure Matched (agree : Edited → Edited → Prop) (state state' : ParseState) : Prop where
  curIface : state'.curIface = state.curIface
  linebuf : state'.linebuf = state.linebuf
  collection : agree (state.collection, state.edits) (state'.collection, state'.edits)

section
variable {host : Host} {agree : Edited → Edited → Prop} {state state' : ParseState} {ifname token : Str} {p : Nat}

theorem Matched.report (err err' : Str) (matched : Matched agree state state') :
    Matched agree (reportError state err) (reportError state' err') := ⟨matched.curIface, matched.linebuf, matched.collection⟩

theorem Matched.nextToken (p : Nat) (matched : Matched agree state state') : (state'.nextToken p).1 = (state.nextToken p).1 ∧
    (state'.nextToken p).2.1 = (state.nextToken p).2.1 ∧ Matched agree (state.nextToken p).2.2 (state'.nextToken p).2.2 := by
  unfold ParseState.nextToken
  dsimp only
  rw [matched.linebuf]
  exact ⟨rfl, rfl, matched.curIface, rfl, matched.collection⟩

theorem Matched.enter (matched : Matched agree state state') (ifname : Str) :
    Matched agree { state with curIface := some ifname } { state' with curIface := some ifname } :=
  ⟨rfl, matched.linebuf, matched.collection⟩

section
variable (uniform : Uniform host agree)
include uniform

theorem Matched.change (matched : Matched agree state state') (ifname : Str) {step : Change}
    (made : Edit.Made (.change ifname step)) : Matched agree (state.change host ifname step) (state'.change host ifname step) := by
  cases uniform.edit made matched.collection with
  | some agreed => exact ⟨matched.curIface, matched.linebuf, agreed⟩

theorem Matched.find (matched : Matched agree state state') (ifname : Str) :
    Matched agree (state.find ifname) (state'.find ifname) := by
  have agreed := @Uniform.edit host agree uniform _ _ (.find ifname) trivial matched.collection
  cases agreed with
  | some agreed => exact ⟨matched.curIface, matched.linebuf, agreed⟩

theorem Matched.inherit (matched : Matched agree state state') (ifname parent : Str) :
    Option.Rel (Matched agree) (state.inherit host ifname parent) (state'.inherit host ifname parent) := by
  have agreed := @Uniform.edit host agree uniform _ _ (.inherit ifname parent) trivial matched.collection
  unfold Edit.apply at agreed
  unfold ParseState.inherit
  revert agreed
  dsimp only
  generalize lifInterfaceCollectionInherit _ state.collection _ _ = inherited,
    lifInterfaceCollectionInherit _ state'.collection _ _ = inherited'
  intro agreed
  cases inherited with
  | none =>
    cases inherited' with
    | none => exact .none
    | some _ => cases agreed
  | some _ =>
    cases inherited' with
    | none => cases agreed
    | some _ =>
      cases agreed with
      | some agreed => exact .some ⟨matched.curIface, matched.linebuf, agreed⟩

theorem Matched.finalize (matched : Matched agree state state') : Matched agree (state.finalize host) (state'.finalize host) := by
  unfold ParseState.finalize
  rw [matched.curIface]
  split
  · exact matched
  · exact matched.change uniform _ trivial

theorem Matched.address (matched : Matched agree state state') :
    Matched agree (handleAddress host state token p) (handleAddress host state' token p) := by
  obtain ⟨word, -, read⟩ := matched.nextToken p
  unfold handleAddress
  dsimp only
  rw [word, read.curIface]
  cases (state.nextToken p).2.2.curIface with
  | none => exact read.report _ _
  | some ifname => exact read.change uniform ifname (by exact trivial)

theorem Matched.auto (matched : Matched agree state state') :
    Matched agree (handleAuto host state p) (handleAuto host state' p) := by
  obtain ⟨word, -, read⟩ := matched.nextToken p
  unfold handleAuto
  dsimp only
  rw [word, read.curIface]
  split
  · exact read.report _ _
  · exact ((read.find uniform _).enter _).change uniform _ (by exact trivial)

theorem Matched.gateway (matched : Matched agree state state') :
    Matched agree (handleGateway host state (str "gateway") p) (handleGateway host state' (str "gateway") p) := by
  obtain ⟨word, -, read⟩ := matched.nextToken p
  unfold handleGateway
  dsimp only
  rw [word, read.curIface]
  cases (state.nextToken p).2.2.curIface with
  | none => exact read.report _ _
  | some ifname => exact (read.change uniform ifname (by exact trivial)).change uniform ifname (Or.inl rfl)

theorem Matched.generic (matched : Matched agree state state')
    (unknown : bsearch (fun entry => strcmp token entry.1) keywords = none) :
    Matched agree (handleGeneric host state token p) (handleGeneric host state' token p) := by
  unfold handleGeneric
  rw [matched.curIface]
  cases state.curIface with
  | none => exact matched
  | some ifname =>
    have added (value : Str) : Matched agree (state.change host ifname (.triple (maybeRemapToken token) value))
        (state'.change host ifname (.triple (maybeRemapToken token) value)) :=
      matched.change uniform ifname (maybeRemapToken_fresh unknown)
    dsimp only
    rw [matched.linebuf]
    split
    · exact added _
    split
    · exact (added _).change uniform ifname (by exact trivial)
    · exact added _

theorem Matched.hostname (matched : Matched agree state state') :
    Matched agree (handleHostname host state token p) (handleHostname host state' token p) := by
  obtain ⟨word, -, read⟩ := matched.nextToken p
  unfold handleHostname
  dsimp only
  rw [word, read.curIface]
  cases (state.nextToken p).2.2.curIface with
  | none => exact read.report _ _
  | some ifname => exact (read.change uniform ifname (by exact rfl)).change uniform ifname (Or.inr rfl)

theorem Matched.use (matched : Matched agree state state') :
    Matched agree (handleUse host state token p) (handleUse host state' token p) := by
  obtain ⟨word, -, read⟩ := matched.nextToken p
  unfold handleUse
  dsimp only
  rw [word, read.curIface]
  cases (state.nextToken p).2.2.curIface with
  | none => exact read.report _ _
  | some ifname => exact read.change uniform ifname (by exact trivial)

theorem Matched.target (matched : Matched agree state state') :
    Option.Rel (Matched agree) (handleInherit host state token p) (handleInherit host state' token p) := by
  obtain ⟨word, -, read⟩ := matched.nextToken p
  unfold handleInherit
  dsimp only
  rw [word, read.curIface]
  cases (state.nextToken p).2.2.curIface with
  | none => exact .some (read.report _ _)
  | some ifname =>
    have found := read.find uniform (state.nextToken p).1
    dsimp only
    rw [(uniform.flags (state.nextToken p).1 found.collection).1]
    split
    · exact .some ((read.report _ _).change uniform ifname (by exact trivial))
    split
    · exact .some ((found.report _ _).change uniform ifname (by exact trivial))
    · exact found.inherit uniform _ _

theorem Matched.hints {fuel : Nat} (matched : Matched agree state state') :
    Option.Rel (Matched agree) (hintLoop host ifname fuel state p) (hintLoop host ifname fuel state' p) := by
  induction fuel generalizing state state' p with
  | zero => exact .none
  | succ fuel ih =>
    obtain ⟨word, pointer, read⟩ := matched.nextToken p
    unfold hintLoop
    dsimp only
    rw [word, pointer]
    split
    · exact .some read
    split
    · exact ih (read.change uniform ifname (by exact trivial))
    split
    · have inherited := @Matched.target host agree _ _ (state.nextToken p).1 (state.nextToken p).2.1 uniform read
      revert inherited
      generalize handleInherit host (state.nextToken p).2.2 _ _ = next, handleInherit host (state'.nextToken p).2.2 _ _ = next'
      intro inherited
      cases inherited with
      | none => exact .none
      | some inherited => exact ih inherited
    split
    · exact ih (read.change uniform ifname (by exact trivial))
    · exact ih read

theorem Matched.head (closed : Matched agree (state.finalize host) (state'.finalize host))
    (named : token = str "defaults" ∨ (state.nextToken p).1 ≠ []) :
    Option.Rel (Matched agree) (handleIface host state token p) (handleIface host state' token p) := by
  have read (state : ParseState) : (state.nextToken p).2.2.finalize host = ((state.finalize host).nextToken p).2.2 := by
    obtain ⟨curIface⟩ := state
    cases curIface <;> rfl
  have buffer (state : ParseState) : (state.finalize host).linebuf = state.linebuf := by
    obtain ⟨curIface⟩ := state
    cases curIface <;> rfl
  have texts : state'.linebuf = state.linebuf := by rw [← buffer state', ← buffer state, closed.linebuf]
  have name : (if token = str "defaults" then (str "defaults", p, state') else state'.nextToken p).1 =
        (if token = str "defaults" then (str "defaults", p, state) else state.nextToken p).1 ∧
      (if token = str "defaults" then (str "defaults", p, state') else state'.nextToken p).2.1 =
        (if token = str "defaults" then (str "defaults", p, state) else state.nextToken p).2.1 ∧
      (if token = str "defaults" then (str "defaults", p, state) else state.nextToken p).1 ≠ [] ∧
      Matched agree ((if token = str "defaults" then (str "defaults", p, state) else state.nextToken p).2.2.finalize host)
        ((if token = str "defaults" then (str "defaults", p, state') else state'.nextToken p).2.2.finalize host) := by
    split
    · have word : str "defaults" ≠ [] := by decide
      exact ⟨rfl, rfl, word, closed⟩
    · rename_i other
      rw [read, read]
      refine ⟨?_, ?_, named.resolve_left other, (closed.nextToken p).2.2⟩
      · unfold ParseState.nextToken
        rw [texts]
      · unfold ParseState.nextToken
        rw [texts]
  unfold handleIface
  revert name
  generalize (if token = str "defaults" then (str "defaults", p, state) else state.nextToken p) = name,
    (if token = str "defaults" then (str "defaults", p, state') else state'.nextToken p) = name'
  obtain ⟨ifname, bufp, read⟩ := name
  obtain ⟨ifname', bufp', read'⟩ := name'
  rintro ⟨rfl, rfl, named, closed⟩
  dsimp only at named closed ⊢
  rw [if_neg named, if_neg named]
  have found := (closed.find uniform ifname').enter ifname'
  revert found
  generalize ({ (read.finalize host).find ifname' with curIface := some ifname' } : ParseState) = entered,
    ({ (read'.finalize host).find ifname' with curIface := some ifname' } : ParseState) = entered'
  intro found
  have marked : Matched agree
      (if token = str "template" ∨ token = str "defaults" then entered.change host ifname' .markTemplate else entered)
      (if token = str "template" ∨ token = str "defaults" then entered'.change host ifname' .markTemplate else entered') := by
    split
    · exact found.change uniform ifname' (by exact trivial)
    · exact found
  revert marked
  generalize (if token = str "template" ∨ token = str "defaults" then entered.change host ifname' .markTemplate
      else entered) = head,
    (if token = str "template" ∨ token = str "defaults" then entered'.change host ifname' .markTemplate
      else entered') = head'
  intro marked
  rw [marked.linebuf]
  have hinted := @Matched.hints host agree _ _ ifname' bufp' uniform (head.linebuf.length + 1) marked
  revert hinted
  generalize hintLoop host ifname' _ head bufp' = next, hintLoop host ifname' _ head' bufp' = next'
  intro hinted
  cases hinted with
  | none => exact .none
  | some hinted =>
    obtain ⟨template, defaults⟩ := uniform.flags ifname' hinted.collection
    dsimp only
    rw [template, defaults]
    split
    · exact (hinted.find uniform _).inherit uniform _ _
    · exact .some hinted

theorem Matched.iface (matched : Matched agree state state') :
    Option.Rel (Matched agree) (handleIface host state token p) (handleIface host state' token p) := by
  by_cases named : token = str "defaults" ∨ (state.nextToken p).1 ≠ []
  · exact (matched.finalize uniform).head uniform named
  obtain ⟨other, none⟩ := not_or.mp named
  obtain ⟨word, -, read⟩ := matched.nextToken p
  unfold handleIface
  rw [if_neg other, if_neg other]
  dsimp only
  rw [word, if_pos (not_not.mp none), if_pos (not_not.mp none)]
  exact .some (read.report _ _)

end

theorem Matched.source (matched : Matched agree state state') :
    Parses (Matched agree) (handleSource host skip state p) (handleSource host skip state' p) := by
  obtain ⟨word, -, read⟩ := matched.nextToken p
  unfold handleSource
  dsimp only
  rw [word]
  split
  · exact .some (read.report _ _)
  · rcases host.wordexp (state.nextToken p).1 with _ | ⟨_ | ⟨m, rest⟩⟩
    · exact .some (read.report _ _)
    · exact .some read
    · simp only [sourceLoop_include, includeLoop_skip]
      cases host.exists_ m <;> exact .some read

theorem Matched.directory (matched : Matched agree state state') :
    Parses (Matched agree) (handleSourceDirectory host skip state p) (handleSourceDirectory host skip state' p) := by
  obtain ⟨word, -, read⟩ := matched.nextToken p
  unfold handleSourceDirectory
  dsimp only
  rw [word]
  split
  · exact .some (read.report _ _)
  · cases host.opendir (state.nextToken p).1 with
    | error reason => exact .some (read.report _ _)
    | ok names =>
      simp only [directoryLoop_include, includeLoop_skip]
      exact .some read

theorem parses_matched {next next' : Option ParseState} (alike : Option.Rel (Matched agree) next next') :
    Parses (Matched agree) (next.map fun state => (true, state)) (next'.map fun state => (true, state)) := by
  cases alike with
  | none => exact .none
  | some alike => exact .some alike

/-- The handling of one line leaves agreeing collections. -/
theorem Matched.line (uniform : Uniform host agree) (matched : Matched agree state state') :
    Parses (Matched agree) (handleLine host skip state) (handleLine host skip state') := by
  obtain ⟨word, pointer, read⟩ := matched.nextToken 0
  have kinds : state'.kind = state.kind := by
    unfold ParseState.kind
    rw [word]
  cases kind : state.kind with
  | blank =>
    rw [handleLine_blank kind, handleLine_blank (kinds.trans kind)]
    exact .some read
  | generic =>
    rw [handleLine_generic kind, handleLine_generic (kinds.trans kind), word, pointer]
    exact .some (read.generic uniform (generic_unknown kind))
  | keyword parserkw =>
    rw [handleLine_keyword kind, handleLine_keyword (kinds.trans kind), word, pointer]
    cases parserkw with
    | address => exact .some (read.address uniform)
    | auto => exact .some (read.auto uniform)
    | iface => exact parses_matched (read.iface uniform)
    | hostname => exact .some (read.hostname uniform)
    | gateway =>
      have only : ∀ entry ∈ keywords, entry.2 = .gateway → entry.1 = str "gateway" := by decide
      rw [only _ (keyword_listed kind) rfl]
      exact .some (read.gateway uniform)
    | inherit => exact parses_matched (read.target uniform)
    | use => exact .some (read.use uniform)
    | source => exact read.source
    | sourceDirectory => exact read.directory

/-- A line that is handled alike from one buffer is handled alike whatever stands behind it, if it ends in time. -/
theorem handleLine_behind {line behind behind' : Str} (current : state'.curIface = state.curIface)
    (buffer : state.linebuf = line ++ 0 :: behind) (buffer' : state'.linebuf = line ++ 0 :: behind')
    (ends : Visit.Ends ⟨line, state⟩)
    (handled : Parses (Matched agree) (handleLine host skip state) (handleLine host skip { state' with linebuf := state.linebuf })) :
    includes host state' = includes host state ∧ Parses (fun next next' => next'.curIface = next.curIface ∧
        agree (next.collection, next.edits) (next'.collection, next'.edits) ∧ next.loaded = state.loaded ∧ next'.loaded = state'.loaded)
      (handleLine host skip state) (handleLine host skip state') := by
  have names : includes host { state' with linebuf := state.linebuf } = includes host state := rfl
  have ends' : Visit.Ends ⟨line, { state' with linebuf := state.linebuf }⟩ := by
    have kinds : ParseState.kind { state' with linebuf := state.linebuf } = state.kind := rfl
    unfold Visit.Ends at ends ⊢
    rw [kinds]
    dsimp only at ends ⊢
    rwa [current]
  obtain ⟨-, names', isolated⟩ :=
    @handleLine_isolated host { state' with linebuf := state.linebuf } state' line behind behind' rfl buffer buffer' ends'
  refine ⟨names'.trans names, ?_⟩
  revert handled isolated
  generalize step : handleLine host skip state = parsed,
    handleLine host skip { state' with linebuf := state.linebuf } = parsed₁, step' : handleLine host skip state' = parsed'
  intro handled isolated
  cases handled with
  | none =>
    rw [Option.map_none, Option.map_eq_none_iff] at isolated
    rw [isolated]
    exact .none
  | @some ok next next₁ alike =>
    obtain ⟨⟨ok', next'⟩, rfl, same⟩ := Option.map_eq_some_iff.mp isolated
    obtain ⟨rfl, cleared⟩ := Prod.mk.inj same
    obtain ⟨linebuf, rfl⟩ := clear_exists cleared
    exact .some ⟨alike.curIface, alike.collection, (handleLine_placed step).loaded, (handleLine_placed step').loaded⟩

end

/-- The handling of a line reads files only by parsing them. -/
theorem handleLine_replace {host : Host} {f text : Str} {parse : ParseState → Str → Option (Bool × ParseState)} {state : ParseState} :
    handleLine (host.replace f text) parse state = handleLine host parse state := by
  have own : handleLine (host.replace f text) skip state = handleLine host skip state := @handleLine_files host host.stack _ state
  rw [handleLine_includes, @handleLine_includes host, own]
  rfl

theorem equal_uniform (host : Host) : Uniform host fun edited edited' => edited.1 = edited'.1 where
  flags x same := by rw [same]; exact ⟨rfl, rfl⟩
  edit {edited _ edit} _ same := by
    rw [← same]
    cases edit.apply host edited.1 with
    | none => exact .none
    | some next => exact .some rfl

end Ifupdown
