import Ifupdown.Parser.Agreement

/-! When a `source` line is as good as the lines of the file that it names. -/
namespace Ifupdown

structure Sources (host : Host) (line f : Str) : Prop where
  kind : textKind line = .keyword .source
  given : secondWord line ≠ []
  expands : host.wordexp (secondWord line) = some [f]
  present : host.exists_ f = true

def OpensStanza (line : Str) : Prop :=
  textKind line = .keyword .iface ∧ ((nextWord line).1 = str "defaults" ∨ secondWord line ≠ [])

/-- Finalizing the current interface changes nothing, or it only comes before that of the next stanza or of the end of the
file, and a second one changes nothing. -/
def ParseState.Closed (host : Host) (behind : List Str) (last : ParseState) : Prop :=
  (last.finalize host).collection.entries = last.collection.entries ∨
    (∀ line ∈ (behind.dropWhile fun line => textKind line = .blank).head?, OpensStanza line) ∧
      ((last.finalize host).finalize host).collection.entries = (last.finalize host).collection.entries

/-- The states have the same interfaces, and the same of these files are loaded in both, the others in the first one. -/
structure Level (root : Str) (file : Str → Prop) (state state' : ParseState) : Prop where
  curIface : state'.curIface = state.curIface
  collection : state.collection = state'.collection
  loaded : ∀ name, file name → (lifDictFind state'.loaded name).isSome = (lifDictFind state.loaded name).isSome
  taken : ∀ name, ¬ file name → (lifDictFind state.loaded name).isSome = true
  rooted : (lifDictFind state.loaded root).isSome = true

section
variable {host : Host} {state state' : ParseState} {line behind root f text : Str} {file : Str → Prop}
  {parse : ParseState → Str → Option (Bool × ParseState)}

theorem collection_entries {collection collection' : Collection} (same : collection.entries = collection'.entries) :
    collection = collection' := by
  cases collection
  cases collection'
  cases same
  rfl

theorem followed_second (given : secondWord line ≠ []) : followed line = true := by
  rw [followed_iff]
  by_contra past
  obtain ⟨blanks, word, rest, splits⟩ := splits_exists line
  have size := splits.length
  have none : (nextWord line).2.2 = [] := by
    rw [splits.nextWord] at past ⊢
    exact List.drop_eq_nil_of_le (by dsimp only at past; omega)
  apply given
  unfold secondWord
  rw [none]
  rfl

theorem handleLine_sources (buffer : state.linebuf = line ++ 0 :: behind) (sources : Sources host line f) :
    includes host state = (false, [f]) ∧ ∃ linebuf, ∀ parse,
      handleLine host parse state = parse { state with linebuf := linebuf } f := by
  have kind := (kind_text buffer).trans sources.kind
  have argument := argument_second buffer (followed_second sources.given)
  constructor
  · unfold includes sourceNames
    rw [kind, argument, sources.expands]
    simp [sources.given, sources.present]
  · refine ⟨((state.nextToken 0).2.2.nextToken (state.nextToken 0).2.1).2.2.linebuf, fun parse => ?_⟩
    have word : ((state.nextToken 0).2.2.nextToken (state.nextToken 0).2.1).1 = secondWord line := argument
    rw [handleLine_keyword kind]
    unfold Keyword.handle handleSource
    dsimp only
    rw [word, if_neg sources.given, sources.expands]
    dsimp only
    rw [if_pos sources.present]
    have same : ((state.nextToken 0).2.2.nextToken (state.nextToken 0).2.1).2.2 =
        { state with linebuf := ((state.nextToken 0).2.2.nextToken (state.nextToken 0).2.1).2.2.linebuf } := rfl
    rw [same]
    unfold sourceLoop
    rcases parse _ f with _ | ⟨parsed, next⟩ <;> rfl

theorem level_find {root : Str} {file : Str → Prop} (level : Level root file state state') (name : Str) (linebuf : Buffer)
    (linebuf' : Buffer) : Level root file { state with loaded := lifDictAdd state.loaded name (), linebuf := linebuf }
      { state' with loaded := lifDictAdd state'.loaded name (), linebuf := linebuf' } := by
  have grown (x : Str) (dict : LifDict Unit) (known : (lifDictFind dict x).isSome = true) :
      (lifDictFind (lifDictAdd dict name ()) x).isSome = true := by
    rw [lifDictFind_add, Option.isSome_or, known, Bool.true_or]
  refine ⟨level.curIface, level.collection, fun x member => ?_, fun x other => grown x _ (level.taken x other),
    grown root _ level.rooted⟩
  dsimp only
  rw [lifDictFind_add, lifDictFind_add, Option.isSome_or, Option.isSome_or, level.loaded x member]

theorem finalize_loaded : (state.finalize host).loaded = state.loaded := by
  unfold ParseState.finalize
  split <;> rfl

theorem finalize_curIface : (state.finalize host).curIface = state.curIface := by
  unfold ParseState.finalize
  split <;> rfl

theorem Level.finalize (level : Level root file state state') : Level root file (state.finalize host) (state'.finalize host) := by
  refine ⟨?_, ?_, ?_, ?_, ?_⟩
  · rw [finalize_curIface, finalize_curIface, level.curIface]
  · unfold ParseState.finalize
    rw [level.curIface]
    cases state.curIface with
    | none => exact level.collection
    | some ifname =>
      unfold ParseState.change
      dsimp only
      rw [level.collection]
  · rw [finalize_loaded, finalize_loaded]
    exact level.loaded
  · rw [finalize_loaded]
    exact level.taken
  · rw [finalize_loaded]
    exact level.rooted

/-- States with the same files loaded are level when their interfaces are. -/
theorem Level.next (level : Level root file state state') {next next' : ParseState} (current : next'.curIface = next.curIface)
    (collection : next.collection = next'.collection) (loaded : next.loaded = state.loaded)
    (loaded' : next'.loaded = state'.loaded) : Level root file next next' := by
  refine ⟨current, collection, ?_, ?_, ?_⟩
  · rw [loaded, loaded']
    exact level.loaded
  · rw [loaded]
    exact level.taken
  · rw [loaded]
    exact level.rooted

/-- Parses of a file and of its replacement stay level while the lines end in time and include files that are no matter. -/
theorem level_lockstep {good : Visit → Prop} {included : Str → Prop} (ends : ∀ visit, good visit → visit.Ends)
    (names : ∀ (state : ParseState) (line : Str), (∀ name, ¬ file name → (lifDictFind state.loaded name).isSome = true) →
      good ⟨line, state⟩ → ∀ name ∈ (includes host state).2, included name) (inside : ∀ name, included name → file name) :
    Lockstep host (host.replace root text) (Level root file) good included where
  handled {state state' line behind behind'} level buffer buffer' here := by
    have matched : Matched (fun edited edited' => edited.1 = edited'.1) state { state' with linebuf := state.linebuf } :=
      ⟨level.curIface, rfl, level.collection⟩
    obtain ⟨same, handled⟩ :=
      handleLine_behind level.curIface buffer buffer' (ends _ here) (matched.line (equal_uniform host))
    refine ⟨same, names state line level.taken here, ?_⟩
    rw [handleLine_replace]
    revert handled
    generalize handleLine host skip state = parsed, handleLine host skip state' = parsed'
    intro handled
    cases handled with
    | none => exact .none
    | some alike =>
      obtain ⟨current, collection, loaded, loaded'⟩ := alike
      exact .some (level.next current collection loaded loaded')
  load _ level := ⟨level.curIface, level.collection, level.loaded, level.taken, level.rooted⟩
  known level member := level.loaded _ (inside _ member)
  found {state state' name} level absent := by
    have other : name ≠ root := by
      rintro rfl
      have rooted := level.rooted
      rw [absent] at rooted
      cases rooted
    exact Function.update_of_ne other _ _
  report _ level := ⟨level.curIface, level.collection, level.loaded, level.taken, level.rooted⟩
  enter name level := by
    have grown := level_find level name (host.stack name) ((host.replace root text).stack name)
    exact ⟨grown.curIface, grown.collection, grown.loaded, grown.taken, grown.rooted⟩
  finalize level := level.finalize
  leave level _ := ⟨level.curIface, level.collection, level.loaded, level.taken, level.rooted⟩

def closeFile (host : Host) : Option (Bool × ParseState) → Option (Bool × Collection)
  | none => none
  | some (false, state) => some (false, state.collection)
  | some (true, state) => some (true, (state.finalize host).collection)

theorem finalize_collection (current : state'.curIface = state.curIface) (same : state.collection = state'.collection) :
    (state.finalize host).collection = (state'.finalize host).collection := by
  unfold ParseState.finalize
  rw [current]
  cases state.curIface with
  | none => exact same
  | some ifname =>
    unfold ParseState.change
    dsimp only
    rw [same]

theorem level_close {parsed parsed' : Option (Bool × ParseState)} (level : Parses (Level root file) parsed parsed') :
    closeFile host parsed = closeFile host parsed' := by
  cases level with
  | none => rfl
  | @some ok next next' level =>
    unfold closeFile
    cases ok with
    | false =>
      dsimp only
      rw [level.collection]
    | true =>
      dsimp only
      rw [level.finalize.collection]

theorem handleLine_plain (names : (includes host state).2 = []) : handleLine host parse state = handleLine host skip state := by
  rw [handleLine_includes, names]
  cases handleLine host skip state with
  | none => rfl
  | some handled => rfl

theorem takeLines_blank {lines : List Str} (blank : ∀ line ∈ lines, textKind line = .blank) :
    ∃ own, takeLines (handleLine host parse) lines state = some (true, own) ∧ own.curIface = state.curIface ∧
      own.collection = state.collection ∧ own.loaded = state.loaded := by
  induction lines generalizing state with
  | nil => exact ⟨state, rfl, rfl, rfl, rfl⟩
  | cons line rest ih =>
    obtain ⟨first, later⟩ := List.forall_mem_cons.mp blank
    have kind : (state.load line).kind = .blank := (kind_text rfl).trans first
    obtain ⟨own, taken, current, collection, loaded⟩ := @ih ((state.load line).nextToken 0).2.2 later
    refine ⟨own, ?_, current, collection, loaded⟩
    unfold takeLines
    rw [handleLine_blank kind]
    exact taken

/-- The head of a stanza is handled alike by states that are level once they are finalized. -/
theorem handleLine_opens {behind' : Str} (opens : OpensStanza line) (buffer : state.linebuf = line ++ 0 :: behind)
    (buffer' : state'.linebuf = line ++ 0 :: behind') (ends : Visit.Ends ⟨line, state⟩) (current : state'.curIface = state.curIface)
    (closed : (state.finalize host).collection = (state'.finalize host).collection) :
    Parses (fun next next' => next'.curIface = next.curIface ∧ next.collection = next'.collection ∧
      next.loaded = state.loaded ∧ next'.loaded = state'.loaded) (handleLine host skip state) (handleLine host skip state') := by
  have kind := (kind_text buffer).trans opens.1
  have texts : (state.nextToken 0).1 = (nextWord line).1 := by
    rw [nextToken_token, buffer]
    exact (nextWord_line line behind).1
  have matched : Matched (fun edited edited' => edited.1 = edited'.1) ((state.nextToken 0).2.2.finalize host)
      ((ParseState.nextToken { state' with linebuf := state.linebuf } 0).2.2.finalize host) := by
    constructor
    · rw [finalize_curIface, finalize_curIface]
      exact current
    · unfold ParseState.finalize ParseState.nextToken
      dsimp only
      rw [current]
      cases state.curIface <;> rfl
    · have left : ((state.nextToken 0).2.2.finalize host).collection = (state.finalize host).collection :=
        finalize_collection rfl rfl
      have right : ((ParseState.nextToken { state' with linebuf := state.linebuf } 0).2.2.finalize host).collection =
          (state'.finalize host).collection := finalize_collection rfl rfl
      rw [left, right, closed]
  have named : (state.nextToken 0).1 = str "defaults" ∨
      ((state.nextToken 0).2.2.nextToken (state.nextToken 0).2.1).1 ≠ [] := by
    rw [texts]
    refine opens.2.imp_right fun given => ?_
    have argument : ((state.nextToken 0).2.2.nextToken (state.nextToken 0).2.1).1 = secondWord line :=
      argument_second buffer (followed_second given)
    rwa [argument]
  refine (@handleLine_behind host (fun edited edited' => edited.1 = edited'.1) _ _ _ _ _ current buffer buffer' ends ?_).2
  have entered := matched.head (equal_uniform host) named
  have kind' : ParseState.kind { state' with linebuf := state.linebuf } = .keyword .iface := kind
  rw [handleLine_keyword kind, handleLine_keyword kind']
  unfold Keyword.handle
  dsimp only
  have same : (ParseState.nextToken { state' with linebuf := state.linebuf } 0).1 = (state.nextToken 0).1 ∧
      (ParseState.nextToken { state' with linebuf := state.linebuf } 0).2.1 = (state.nextToken 0).2.1 := ⟨rfl, rfl⟩
  rw [same.1, same.2]
  exact parses_matched entered

def Visit.Fresh (host : Host) (f : Str) (visit : Visit) : Prop :=
  visit.Ends ∧ (f ∈ (includes host visit.state).2 → lifDictFind visit.state.loaded f = none)

theorem fresh_lockstep : Lockstep host (host.replace root text) (Level root fun name => name ≠ f) (Visit.Fresh host f)
    (fun name => name ≠ f) := by
  refine level_lockstep (fun _ fresh => fresh.1) (fun state line taken fresh name member => ?_) fun _ => id
  rintro rfl
  have loaded := taken name (not_not.mpr rfl)
  rw [fresh.2 member] at loaded
  cases loaded

/-- Behind the lines of the file the parse that has finalized the current interface ends like the other one. -/
theorem behind_close {fuel : Nat} {last last' : ParseState} {lines : List Str} (level : Level root (fun name => name ≠ f) last last')
    (current : state.curIface = last.curIface) (collection : state.collection = (last.finalize host).collection)
    (loaded : state.loaded = last.loaded) (closed : last'.Closed host lines)
    (visited : ∀ visit ∈ takeVisits host (lifInterfaceFileParse host fuel) (visits host fuel) lines state, visit.Fresh host f) :
    closeFile host (takeLines (handleLine host (lifInterfaceFileParse host fuel)) lines state) =
      closeFile host (takeLines (handleLine (host.replace root text) (lifInterfaceFileParse (host.replace root text) fuel)) lines last') := by
  have lockstep := @fresh_lockstep host root f text
  have finalized : Level root (fun name => name ≠ f) (last.finalize host) (last'.finalize host) := level.finalize
  rcases closed with unchanged | ⟨opens, again⟩
  · have same : state.collection = last'.collection := by
      rw [collection, finalized.collection, collection_entries unchanged]
    exact level_close (lines_lockstep lockstep (level.next (level.curIface.trans current.symm) same loaded rfl) visited)
  -- the blank lines in front of the next stanza, or of the end of the file
  have blank : ∀ line ∈ lines.takeWhile fun line => textKind line = .blank, textKind line = .blank :=
    fun line member => of_decide_eq_true (List.mem_takeWhile_imp (p := fun line => textKind line = .blank) member)
  have split := List.takeWhile_append_dropWhile (p := fun line => decide (textKind line = .blank)) (l := lines)
  generalize (lines.takeWhile fun line => decide (textKind line = .blank)) = blanks,
    (lines.dropWhile fun line => decide (textKind line = .blank)) = rest at blank split opens
  subst split
  obtain ⟨own, taken, here, kept, files⟩ := @takeLines_blank host state (lifInterfaceFileParse host fuel) blanks blank
  obtain ⟨own', taken', here', kept', files'⟩ :=
    @takeLines_blank (host.replace root text) last' (lifInterfaceFileParse (host.replace root text) fuel) blanks blank
  rw [takeVisits_append, taken] at visited
  rw [takeLines_append, takeLines_append, taken, taken', Option.bind_some, Option.bind_some]
  dsimp only [Option.elim_some] at visited ⊢
  replace visited := (List.forall_mem_append.mp visited).2
  rw [if_pos rfl] at visited
  rw [if_pos rfl, if_pos rfl]
  have final : (own.finalize host).collection = (own'.finalize host).collection := by
    have first : (own.finalize host).collection = ((last.finalize host).finalize host).collection :=
      finalize_collection (by rw [finalize_curIface, here, current]) (by rw [kept, collection])
    have second : (own'.finalize host).collection = (last'.finalize host).collection :=
      finalize_collection here'.symm kept'
    rw [first, second, finalized.finalize.collection, collection_entries again]
  cases rest with
  | nil => exact congrArg (fun collection => some (true, collection)) final
  | cons head later =>
    have opens := opens head rfl
    unfold takeVisits at visited
    obtain ⟨fresh, inside⟩ := List.forall_mem_cons.mp visited
    obtain ⟨-, visited⟩ := List.forall_mem_append.mp inside
    have kind : (own.load head).kind = .keyword .iface := (kind_text rfl).trans opens.1
    have kind' : (own'.load head).kind = .keyword .iface := (kind_text rfl).trans opens.1
    have none (state : ParseState) (kind : state.kind = .keyword .iface) : (includes host state).2 = [] := by
      unfold includes
      rw [kind]
    have loads (own : ParseState) : ((own.load head).finalize host).collection = (own.finalize host).collection :=
      finalize_collection rfl rfl
    have handled := @handleLine_opens host (own.load head) (own'.load head) head _ _ opens rfl rfl fresh.1
      (by exact (here'.trans level.curIface).trans (here.trans current).symm)
      ((loads own).trans (final.trans (loads own').symm))
    rw [handleLine_plain (none _ kind)] at visited
    unfold takeLines
    rw [handleLine_plain (none _ kind), handleLine_replace, handleLine_plain (none _ kind')]
    revert handled visited
    generalize handleLine host skip (own.load head) = parsed, handleLine host skip (own'.load head) = parsed'
    intro visited handled
    cases handled with
    | none => rfl
    | @some ok next next' alike =>
      obtain ⟨current', collection', loaded', loaded''⟩ := alike
      have level := level.next current' collection' (loaded'.trans (files.trans loaded)) (loaded''.trans files')
      cases ok with
      | false => exact congrArg (fun collection => some (false, collection)) collection'
      | true => exact level_close (lines_lockstep lockstep level visited)

theorem leaveFile_collection {old : ParseState} (parsed : Option (Bool × ParseState)) :
    (leaveFile host old parsed).map (Prod.map id ParseState.collection) = closeFile host parsed := by
  rcases parsed with _ | ⟨_ | _, last⟩ <;> rfl

theorem takeVisits_alone {inner : ParseState → Str → List Visit} {lines : List Str}
    (alone : ∀ line ∈ lines, textKind line ≠ .keyword .source ∧ textKind line ≠ .keyword .sourceDirectory) :
    ∀ visit ∈ takeVisits host parse inner lines state, (includes host visit.state).2 = [] := by
  induction lines generalizing state with
  | nil => simp [takeVisits]
  | cons line rest ih =>
    obtain ⟨here, others⟩ := List.forall_mem_cons.mp alone
    have plain : (state.load line).Plain := by
      unfold ParseState.Plain
      rwa [kind_text rfl]
    have names := @plain_includes host _ plain
    unfold takeVisits
    rw [names]
    intro visit member
    rcases List.mem_cons.mp member with rfl | inside
    · rw [names]
    rcases List.mem_append.mp inside with nested | later
    · rcases handled : handleLine host skip (state.load line) with _ | ⟨ok, own⟩
      · rw [handled] at nested
        cases nested
      · rw [handled] at nested
        cases nested
    · revert later
      rcases handleLine host parse (state.load line) with _ | ⟨_ | _, next⟩
      · exact fun none => by cases none
      · exact fun none => by cases none
      · exact ih others visit

/-- The lines of the file are handled where the `source` line stands. -/
theorem sourced_close {fuel : Nat} {line : Str} {lines behind : List Str} (level : Level root (fun _ => True) state state')
    (found : host.fopen f = some text') (content : fileLines text' = lines) (sources : Sources host line f)
    (alone : ∀ line ∈ lines, textKind line ≠ .keyword .source ∧ textKind line ≠ .keyword .sourceDirectory)
    (visited : ∀ visit ∈ takeVisits host (lifInterfaceFileParse host (fuel + 1)) (visits host (fuel + 1)) (line :: behind) state,
      visit.Fresh host f)
    (closed : ∀ last, takeLines (handleLine (host.replace root text) (lifInterfaceFileParse (host.replace root text) (fuel + 1)))
      lines state' = some (true, last) → last.Closed host behind) :
    closeFile host (takeLines (handleLine host (lifInterfaceFileParse host (fuel + 1))) (line :: behind) state) =
      closeFile host (takeLines (handleLine (host.replace root text) (lifInterfaceFileParse (host.replace root text) (fuel + 1)))
        (lines ++ behind) state') := by
  obtain ⟨names, linebuf, sourced⟩ := @handleLine_sources host (state.load line) line _ f rfl sources
  rw [takeVisits, sourced skip, sourced] at visited
  obtain ⟨here, inside⟩ := List.forall_mem_cons.mp visited
  obtain ⟨nested, later⟩ := List.forall_mem_append.mp inside
  rw [names] at nested
  have member : f ∈ (includes host (state.load line)).2 := by
    rw [names]
    exact List.mem_singleton_self f
  have absent : lifDictFind state.loaded f = none := here.2 member
  generalize own : ({ state.load line with linebuf := linebuf } : ParseState) = own_ at sourced nested later
  have absent' : lifDictFind own_.loaded f = none := by
    rw [← own]
    exact absent
  have parsed := @parse_lines host own_ f text' fuel absent' found
  have lined := @visits_lines host own_ f text' fuel absent' found
  rw [content] at parsed lined
  have inner : ∀ visit ∈ takeVisits host (lifInterfaceFileParse host fuel) (visits host fuel) lines (own_.enter host f),
      visit.Ends ∧ (includes host visit.state).2 = [] := by
    intro visit member
    rw [← lined] at member
    refine ⟨(nested visit (List.mem_append_left _ member)).1, ?_⟩
    rw [lined] at member
    exact takeVisits_alone alone visit member
  have entered : Level root (fun name => name ≠ f) (own_.enter host f) state' := by
    rw [← own]
    refine ⟨level.curIface, level.collection, fun name other => ?_, fun name same => ?_, ?_⟩
    · refine (level.loaded name trivial).trans ?_
      unfold ParseState.enter
      dsimp only
      rw [lifDictFind_add, if_neg (Ne.symm other), Option.or_none]
      rfl
    · unfold ParseState.enter
      dsimp only
      rw [lifDictFind_add, if_pos (not_not.mp same).symm, Option.isSome_or]
      exact Bool.or_true _
    · unfold ParseState.enter
      dsimp only
      rw [lifDictFind_add, Option.isSome_or, Bool.or_eq_true]
      exact Or.inl level.rooted
  have lockstep := @level_lockstep host root text (fun name => name ≠ f)
    (fun visit => visit.Ends ∧ (includes host visit.state).2 = []) (fun _ => False) (fun _ good => good.1)
    (fun state line _ good name member => by rw [good.2] at member; cases member) (fun _ none => none.elim)
  have taken := @takeLines_lockstep host (host.replace root text) _ _ _ (lifInterfaceFileParse host fuel)
    (lifInterfaceFileParse (host.replace root text) (fuel + 1)) (visits host fuel) _ _ (fun _ _ _ _ none => none.elim) lockstep
    lines entered inner
  rw [takeLines, sourced, takeLines_append, parsed]
  rw [parsed] at later
  revert taken later closed
  generalize takeLines _ lines (own_.enter host f) = ended, takeLines _ lines state' = ended'
  intro closed later taken
  cases taken with
  | none => rfl
  | @some ok last last' level =>
    cases ok with
    | false => exact congrArg (fun collection => some (false, collection)) level.collection
    | true =>
      have current : ((last.finalize host).leave own_).curIface = last.curIface := finalize_curIface
      have loaded : ((last.finalize host).leave own_).loaded = last.loaded := finalize_loaded
      exact behind_close level current rfl loaded (closed last' rfl) later

end

theorem source_lines (host : Host) (fuel : Nat) (state : ParseState) {root f text text' included line : Str}
    {before behind : List Str} (file : host.fopen root = some text) (found : host.fopen f = some included)
    (original : fileLines text = before ++ line :: behind)
    (replaced : fileLines text' = before ++ fileLines included ++ behind) (sources : Sources host line f)
    (alone : ∀ line ∈ fileLines included, textKind line ≠ .keyword .source ∧ textKind line ≠ .keyword .sourceDirectory)
    (visited : ∀ visit ∈ visits host (fuel + 2) state root, visit.Fresh host f)
    (closed : ∀ last, takeLines (handleLine (host.replace root text') (lifInterfaceFileParse (host.replace root text') (fuel + 1)))
      (before ++ fileLines included) (state.enter host root) = some (true, last) → last.Closed host behind) :
    (lifInterfaceFileParse host (fuel + 2) state root).map (Prod.map id ParseState.collection) =
      (lifInterfaceFileParse (host.replace root text') (fuel + 2) state root).map (Prod.map id ParseState.collection) := by
  cases absent : lifDictFind state.loaded root with
  | some loaded =>
    have known : (lifDictFind state.loaded root).isSome = true := by rw [absent, Option.isSome_some]
    rw [lifInterfaceFileParse, lifInterfaceFileParse, if_pos known, if_pos known]
  | none =>
    have file' : (host.replace root text').fopen root = some text' := Function.update_self ..
    have same (parsed : Option (Bool × ParseState)) : closeFile (host.replace root text') parsed = closeFile host parsed := by
      rcases parsed with _ | ⟨_ | _, last⟩ <;> rfl
    have entered : state.enter (host.replace root text') root = state.enter host root := rfl
    rw [visits_lines absent file, original, takeVisits_append] at visited
    obtain ⟨first, later⟩ := List.forall_mem_append.mp visited
    rw [parse_lines absent file, parse_lines absent file', leaveFile_collection, leaveFile_collection, same, original, replaced,
      entered, List.append_assoc, takeLines_append, takeLines_append]
    rw [takeLines_append] at closed
    have start : Level root (fun _ => True) (state.enter host root) (state.enter host root) := by
      refine ⟨rfl, rfl, fun _ _ => rfl, fun _ none => absurd trivial none, ?_⟩
      unfold ParseState.enter
      dsimp only
      rw [lifDictFind_add, if_pos rfl, Option.isSome_or]
      exact Bool.or_true _
    have lockstep := @level_lockstep host root text' (fun _ => True) (Visit.Fresh host f) (fun _ => True) (fun _ fresh => fresh.1)
      (fun _ _ _ _ _ _ => trivial) (fun _ _ => trivial)
    have taken := lines_lockstep lockstep start first
    revert taken later closed
    generalize takeLines (handleLine host (lifInterfaceFileParse host (fuel + 1))) before (state.enter host root) = ended,
      takeLines (handleLine (host.replace root text') (lifInterfaceFileParse (host.replace root text') (fuel + 1))) before
        (state.enter host root) = ended'
    intro closed later taken
    cases taken with
    | none => rw [Option.bind_none, Option.bind_none]
    | @some ok reached reached' level =>
      cases ok with
      | false => exact congrArg (fun collection => some (false, collection)) level.collection
      | true => exact sourced_close level found rfl sources alone later closed

/-- A `source` line is as good as the lines of the file if that file is not included once more, all lines end in time, and
the file ends where finalizing the current interface does no harm. -/
theorem source_textual (host : Host) (fuel : Nat) (state : ParseState) (root f before source behind included line : Str)
    (file : host.fopen root = some (before ++ source ++ behind)) (found : host.fopen f = some included)
    (whole : Terminated before ∧ Terminated source ∧ Terminated included) (single : fileLines source = [line])
    (sources : Sources host line f)
    (alone : ∀ line ∈ fileLines included, textKind line ≠ .keyword .source ∧ textKind line ≠ .keyword .sourceDirectory)
    (visited : ∀ visit ∈ visits host (fuel + 2) state root, visit.Fresh host f)
    (closed : ∀ last, takeLines (handleLine (host.replace root (before ++ included ++ behind))
        (lifInterfaceFileParse (host.replace root (before ++ included ++ behind)) (fuel + 1))) (fileLines (before ++ included))
      (state.enter host root) = some (true, last) → last.Closed host (fileLines behind)) :
    (lifInterfaceFileParse host (fuel + 2) state root).map (Prod.map id ParseState.collection) =
      (lifInterfaceFileParse (host.replace root (before ++ included ++ behind)) (fuel + 2) state root).map
        (Prod.map id ParseState.collection) := by
  obtain ⟨first, second, third⟩ := whole
  have original : fileLines (before ++ source ++ behind) = fileLines before ++ line :: fileLines behind := by
    rw [List.append_assoc, fileLines_append first, fileLines_append second, single]
    rfl
  have replaced : fileLines (before ++ included ++ behind) = fileLines before ++ fileLines included ++ fileLines behind := by
    rw [List.append_assoc, fileLines_append first, fileLines_append third, List.append_assoc]
  rw [fileLines_append first] at closed
  exact source_lines host fuel state file found original replaced sources alone visited closed

instance (host : Host) (f : Str) (visit : Visit) : Decidable (visit.Fresh host f) :=
  inferInstanceAs (Decidable (_ ∧ (_ → _)))

def twoFiles (text : String) : Host where
  fopen name :=
    if name = str "interfaces" then some (str text)
    else if name = str "eth0" then some (str "iface eth0\nmtu 1500\n")
    else none

instance (host : Host) (line f : Str) : Decidable (Sources host line f) :=
  decidable_of_iff (textKind line = .keyword .source ∧ secondWord line ≠ [] ∧ host.wordexp (secondWord line) = some [f] ∧
    host.exists_ f = true) ⟨fun ⟨kind, given, expands, present⟩ => ⟨kind, given, expands, present⟩,
      fun ⟨kind, given, expands, present⟩ => ⟨kind, given, expands, present⟩⟩

instance (line : Str) : Decidable (OpensStanza line) := inferInstanceAs (Decidable (_ ∧ _))

instance (host : Host) (behind : List Str) (last : ParseState) : Decidable (last.Closed host behind) :=
  inferInstanceAs (Decidable (_ ∨ (∀ line ∈ (behind.dropWhile fun line => decide (textKind line = .blank)).head?, OpensStanza line) ∧ _))

theorem closed_check {host : Host} {behind : List Str} {parsed : Option (Bool × ParseState)}
    (check : (parsed.all fun ended => decide (ended.2.Closed host behind)) = true) (last : ParseState)
    (ended : parsed = some (true, last)) : last.Closed host behind := by
  rw [ended] at check
  exact of_decide_eq_true check

/-- A file that is included between two stanzas. -/
def sourcesOnce : Host := twoFiles "auto lo\nsource eth0\n\niface eth1\n"

theorem source_textual_once : (lifInterfaceFileParse sourcesOnce 2 {} (str "interfaces")).map (Prod.map id ParseState.collection) =
    (lifInterfaceFileParse (sourcesOnce.replace (str "interfaces") (str "auto lo\niface eth0\nmtu 1500\n\niface eth1\n")) 2 {}
      (str "interfaces")).map (Prod.map id ParseState.collection) := by
  have whole : Terminated (str "auto lo\n") ∧ Terminated (str "source eth0\n") ∧ Terminated (str "iface eth0\nmtu 1500\n") := by
    decide +kernel
  have single : fileLines (str "source eth0\n") = [str "source eth0" ++ [0]] := by decide +kernel
  have sources : Sources sourcesOnce (str "source eth0" ++ [0]) (str "eth0") := by decide +kernel
  have alone : ∀ line ∈ fileLines (str "iface eth0\nmtu 1500\n"),
      textKind line ≠ .keyword .source ∧ textKind line ≠ .keyword .sourceDirectory := by decide +kernel
  have visited : ∀ visit ∈ visits sourcesOnce 2 {} (str "interfaces"), visit.Fresh sourcesOnce (str "eth0") := by decide +kernel
  refine source_textual sourcesOnce 0 {} (str "interfaces") (str "eth0") (str "auto lo\n") (str "source eth0\n")
    (str "\niface eth1\n") (str "iface eth0\nmtu 1500\n") (str "source eth0" ++ [0]) (by decide +kernel) (by decide +kernel)
    whole single sources alone visited (closed_check ?_)
  decide +kernel

/-- A file that is named once more is left out there, but its lines are not. -/
def sourcesTwice : Host := twoFiles "source eth0\nsource eth0\n"

theorem source_textual_twice :
    ¬ ∀ (host : Host) (fuel : Nat) (root f before source behind included line : Str),
      host.fopen root = some (before ++ source ++ behind) → host.fopen f = some included → f ≠ root →
      (Terminated before ∧ Terminated source ∧ Terminated included) → fileLines source = [line] → Sources host line f →
      (∀ line ∈ fileLines before ++ fileLines included, textKind line ≠ .keyword .source ∧ textKind line ≠ .keyword .sourceDirectory) →
      (∀ visit ∈ visits host (fuel + 2) {} root, visit.Ends) →
      (lifInterfaceFileParse host (fuel + 2) {} root).map (Prod.map id ParseState.collection) =
        (lifInterfaceFileParse (host.replace root (before ++ included ++ behind)) (fuel + 2) {} root).map
          (Prod.map id ParseState.collection) := by
  intro claim
  have whole : Terminated [] ∧ Terminated (str "source eth0\n") ∧ Terminated (str "iface eth0\nmtu 1500\n") := by
    decide +kernel
  have single : fileLines (str "source eth0\n") = [str "source eth0" ++ [0]] := by decide +kernel
  have sources : Sources sourcesTwice (str "source eth0" ++ [0]) (str "eth0") := by decide +kernel
  have alone : ∀ line ∈ fileLines [] ++ fileLines (str "iface eth0\nmtu 1500\n"),
      textKind line ≠ .keyword .source ∧ textKind line ≠ .keyword .sourceDirectory := by decide +kernel
  have ends : ∀ visit ∈ visits sourcesTwice 2 {} (str "interfaces"), visit.Ends := by decide +kernel
  have same := claim sourcesTwice 0 (str "interfaces") (str "eth0") [] (str "source eth0\n") (str "source eth0\n")
    (str "iface eth0\nmtu 1500\n") (str "source eth0" ++ [0]) (by decide +kernel) (by decide +kernel) (by decide +kernel)
    whole single sources alone ends
  have vars := congrArg (Option.map fun parsed => (parsed.2.iface (str "eth0")).vars) same
  revert vars
  decide +kernel

end Ifupdown
