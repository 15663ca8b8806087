import Ifupdown.Model.LineEnds
import Ifupdown.Parser.Isolation
import Ifupdown.Parser.Lines
import Ifupdown.Parser.Lookups

/-! What lines do that are written as the parser expects them. -/
namespace Ifupdown

structure Stored (line : Str) : Prop where
  bytes : ∀ c ∈ line, c ≠ 35 ∧ c ≠ 10 ∧ c ≠ 13
  last : line.getLast? ≠ some 92
  short : line.length < 4094

def Collection.alter (host : Host) (ifname : Str) (changes : List Change) (collection : Collection) : Collection :=
  changes.foldl (fun collection step =>
    collection.write ifname (fun iface => step.apply host iface) (fun iface => step.apply_ifname host iface)) collection

/-- The changes that a line of a stanza makes, by its keyword. -/
def entryChanges (host : Host) (key value : Str) : List Change :=
  match lineKind key with
  | .keyword .address => [.addressAdd value]
  | .keyword .gateway => [.useExecutor (str "static"), .dictAdd key value]
  | .keyword .hostname => [.dictDelete (str "dhcp-hostname"), .dictAdd (str "dhcp-hostname") value]
  | .keyword .use => [.useExecutor value]
  | .generic => .triple (maybeRemapToken key) value ::
      if host.config.autoExecutorSelection ∧ 45 ∈ maybeRemapToken key then
        [.useExecutor ((maybeRemapToken key).takeWhile fun c => c != 45)] else []
  | _ => []

def stanzaKinds : List LineKind := [.generic, .keyword .address, .keyword .gateway, .keyword .hostname, .keyword .use]

def entryLine (key value : Str) : Str := str "  " ++ key ++ 32 :: value

def ifaceLine (ifname : Str) (isTemplate noDefaults : Bool) : Str :=
  (if isTemplate then str "template" else str "iface") ++ 32 :: (ifname ++ if noDefaults then str " no-defaults" else [])

def headChanges (isTemplate noDefaults : Bool) : List Change :=
  (if isTemplate then [.markTemplate] else []) ++ if noDefaults then [.noDefaults] else []

/-- A value that a line ends with: a word, unless the key is none of the parser's. -/
structure LineValue (key value : Str) : Prop where
  text : 0 ∉ value
  start : ∀ c ∈ value.head?, isSpace c = false
  word : lineKind key ≠ .generic → Solid value

section
variable {host : Host} {parse : ParseState → Str → Option (Bool × ParseState)} {state state' : ParseState} {line ifname x : Str}

theorem fileLines_cons (stored : Stored line) (rest : Str) : fileLines (line ++ 10 :: rest) = (line ++ [0]) :: fileLines rest := by
  have read := fgetlineLoop_line 4094 rest stored.bytes stored.last false [] (by simp) (by simpa using stored.short)
  have kept : terminate (line ++ [10]) = line ++ [0, 0] :=
    terminate_newline fun cr => (stored.bytes 13 (List.mem_of_getLast? cr)).2.2 rfl
  rw [fileLines_step, read]
  simp [kept]

theorem fileLines_physical {lines : List Str} (stored : ∀ line ∈ lines, Stored line) :
    fileLines (physicalText lines) = lines.map fun line => line ++ [0] := by
  induction lines with
  | nil => rfl
  | cons line rest ih =>
    obtain ⟨first, later⟩ := List.forall_mem_cons.mp stored
    rw [physicalText_cons, List.append_assoc, List.singleton_append, fileLines_cons first, ih later, List.map_cons]

theorem iface_alter (changes : List Change) (collection : Collection) : (collection.alter host ifname changes).iface x =
    if ifname = x then changes.foldl (Change.apply host) (collection.iface x) else collection.iface x := by
  induction changes generalizing collection with
  | nil => simp [Collection.alter]
  | cons step rest ih =>
    rw [Collection.alter, List.foldl_cons]
    refine (ih _).trans ?_
    rw [iface_write]
    split <;> rfl

theorem alter_has {changes : List Change} {collection : Collection} (known : collection.Has ifname) :
    (collection.alter host ifname changes).Has x ↔ collection.Has x := by
  induction changes generalizing collection with
  | nil => rfl
  | cons step rest ih =>
    have had {y : Str} : (collection.write ifname (fun iface => step.apply host iface)
        (fun iface => step.apply_ifname host iface)).Has y ↔ collection.Has y := write_had known
    exact (ih (had.mpr known)).trans had

theorem change_alter (state : ParseState) (ifname : Str) (step : Change) :
    (state.change host ifname step).collection = state.collection.alter host ifname [step] := rfl

theorem nextToken_at {p : Nat} {blanks word rest : Str} {c : UInt8} (here : state.linebuf.drop p = blanks ++ word ++ c :: rest)
    (blank : ∀ c ∈ blanks, isSpace c = true) (solid : Solid word) (stop : c = 0 ∨ word ≠ [] ∧ isSpace c = true) :
    (state.nextToken p).1 = word ∧ (state.nextToken p).2.2.linebuf.drop (state.nextToken p).2.1 = rest := by
  have splits : Splits (state.linebuf.drop p) blanks word (c :: rest) := by
    refine ⟨here, blank, solid, ?_⟩
    rintro d ⟨⟩
    exact stop
  rw [nextToken_token, nextToken_behind, splits.nextWord]
  exact ⟨rfl, rfl⟩

theorem load_first {blanks word rest : Str} (blank : ∀ c ∈ blanks, isSpace c = true) (solid : Solid word) (some_ : word ≠ [])
    (same : line = blanks ++ word ++ 32 :: rest) :
    ((state.load (line ++ [0])).nextToken 0).1 = word ∧
      ∃ behind, ((state.load (line ++ [0])).nextToken 0).2.2.linebuf.drop ((state.load (line ++ [0])).nextToken 0).2.1 =
        rest ++ 0 :: 0 :: behind := by
  have here : (state.load (line ++ [0])).linebuf.drop 0 = blanks ++ word ++ 32 :: (rest ++ 0 :: 0 ::
      state.linebuf.drop ((line ++ [0]).length + 1)) := by
    rw [List.drop_zero, same]
    simp [ParseState.load]
  obtain ⟨token, behind⟩ := nextToken_at here blank solid (Or.inr ⟨some_, rfl⟩)
  exact ⟨token, _, behind⟩

theorem valueText_start {value : Str} (text : 0 ∉ value) (start : ∀ c ∈ value.head?, isSpace c = false) (behind : Str) :
    valueText (value ++ 0 :: behind) = value := by
  rw [valueText_line, valueText]
  have skipped : value.dropWhile isSpace = value := by
    cases value with
    | nil => rfl
    | cons c rest => exact List.dropWhile_cons_of_neg (by simp [start c rfl])
  rw [skipped]
  exact List.takeWhile_eq_self_iff.mpr fun c member => by
    simp only [bne_iff_ne, ne_eq]
    rintro rfl
    exact text member

section
variable {token : Str} {p : Nat} (inside : state.curIface = some ifname)
include inside

theorem handleAddress_inside : handleAddress host state token p =
    (state.nextToken p).2.2.change host ifname (.addressAdd (state.nextToken p).1) := by
  have current : (state.nextToken p).2.2.curIface = some ifname := inside
  unfold handleAddress
  dsimp only
  rw [current]

theorem handleGeneric_inside : (handleGeneric host state token p).curIface = some ifname ∧
    (handleGeneric host state token p).collection = state.collection.alter host ifname (.triple (maybeRemapToken token)
      (strAt state.linebuf (p + ((state.linebuf.drop p).takeWhile isSpace).length)) ::
        if host.config.autoExecutorSelection ∧ 45 ∈ maybeRemapToken token then
          [.useExecutor ((maybeRemapToken token).takeWhile fun c => c != 45)] else []) := by
  unfold handleGeneric
  rw [inside]
  dsimp only
  by_cases adds : host.config.autoExecutorSelection = true ∧ 45 ∈ maybeRemapToken token
  · rw [if_pos adds]
    obtain ⟨auto, dash⟩ := adds
    rw [auto, if_pos dash]
    exact ⟨inside, rfl⟩
  · rw [if_neg adds]
    cases auto : host.config.autoExecutorSelection with
    | false => exact ⟨inside, rfl⟩
    | true =>
      rw [if_neg fun dash => adds ⟨auto, dash⟩]
      exact ⟨inside, rfl⟩

theorem handleGateway_inside : handleGateway host state token p =
    ((state.nextToken p).2.2.change host ifname (.useExecutor (str "static"))).change host ifname
      (.dictAdd token (state.nextToken p).1) := by
  have current : (state.nextToken p).2.2.curIface = some ifname := inside
  unfold handleGateway
  dsimp only
  rw [current]

theorem handleHostname_inside : handleHostname host state token p =
    ((state.nextToken p).2.2.change host ifname (.dictDelete (str "dhcp-hostname"))).change host ifname
      (.dictAdd (str "dhcp-hostname") (state.nextToken p).1) := by
  have current : (state.nextToken p).2.2.curIface = some ifname := inside
  unfold handleHostname
  dsimp only
  rw [current]

theorem handleUse_inside : handleUse host state token p =
    (state.nextToken p).2.2.change host ifname (.useExecutor (state.nextToken p).1) := by
  have current : (state.nextToken p).2.2.curIface = some ifname := inside
  unfold handleUse
  dsimp only
  rw [current]

end

/-- A line of a stanza makes the changes of its keyword. -/
theorem entry_handled {key value : Str} (solid : Solid key) (kind : lineKind key ∈ stanzaKinds) (fits : LineValue key value)
    (inside : state.curIface = some ifname) :
    ∃ next, handleLine host parse (state.load (entryLine key value ++ [0])) = some (true, next) ∧
      next.curIface = some ifname ∧ next.collection = state.collection.alter host ifname (entryChanges host key value) := by
  have some_ : key ≠ [] := by
    rintro rfl
    exact absurd kind (by decide)
  have blanks : (str "  ").all isSpace = true := by decide
  obtain ⟨token, behind, here⟩ := @load_first state (entryLine key value) (str "  ") key value (List.all_eq_true.mp blanks) solid some_ rfl
  revert token here
  have kept : (state.load (entryLine key value ++ [0])).curIface = some ifname ∧
      (state.load (entryLine key value ++ [0])).collection = state.collection := ⟨inside, rfl⟩
  revert kept
  generalize state.load (entryLine key value ++ [0]) = read
  rintro ⟨inside, same⟩ token here
  have sort : read.kind = lineKind key := by rw [ParseState.kind, token]
  have inside : (read.nextToken 0).2.2.curIface = some ifname := inside
  have argument (word : Solid value) : ((read.nextToken 0).2.2.nextToken (read.nextToken 0).2.1).1 = value := by
    exact (@nextToken_at (read.nextToken 0).2.2 _ [] _ _ _ here (by simp) word (Or.inl rfl)).1
  rw [← same]
  unfold entryChanges
  simp only [stanzaKinds, List.mem_cons, List.not_mem_nil, or_false] at kind
  rcases kind with kind | kind | kind | kind | kind
  all_goals
    rw [kind] at sort
    simp only [kind]
  · obtain ⟨current, altered⟩ := @handleGeneric_inside host (read.nextToken 0).2.2 ifname key (read.nextToken 0).2.1 inside
    rw [value_text, here, valueText_start fits.text fits.start] at altered
    rw [handleLine_generic sort, token]
    exact ⟨_, rfl, current, altered⟩
  all_goals
    have argument := argument (fits.word (by rw [kind]; decide))
    rw [handleLine_keyword sort, token, Keyword.handle]
  · exact ⟨_, rfl, by rw [handleAddress_inside inside]; exact inside, by rw [handleAddress_inside inside, argument]; rfl⟩
  · exact ⟨_, rfl, by rw [handleGateway_inside inside]; exact inside, by rw [handleGateway_inside inside, argument]; rfl⟩
  · exact ⟨_, rfl, by rw [handleHostname_inside inside]; exact inside, by rw [handleHostname_inside inside, argument]; rfl⟩
  · exact ⟨_, rfl, by rw [handleUse_inside inside]; exact inside, by rw [handleUse_inside inside, argument]; rfl⟩

theorem auto_handled (solid : Solid ifname) (some_ : ifname ≠ []) :
    ∃ next, handleLine host parse (state.load (str "auto " ++ ifname ++ [0])) = some (true, next) ∧
      next.curIface = some ifname ∧
      next.collection = (lifInterfaceCollectionFind state.collection ifname).2.alter host ifname [.markAuto] := by
  obtain ⟨token, behind, here⟩ := @load_first state (str "auto " ++ ifname) [] (str "auto") ifname (by simp) (by decide)
    (by decide) (by rw [show str "auto " = str "auto" ++ [32] by decide]; simp)
  revert token here
  have same : (state.load (str "auto " ++ ifname ++ [0])).collection = state.collection := rfl
  revert same
  generalize state.load (str "auto " ++ ifname ++ [0]) = read
  intro same token here
  have sort : read.kind = .keyword .auto := by
    rw [ParseState.kind, token]
    decide
  have argument : ((read.nextToken 0).2.2.nextToken (read.nextToken 0).2.1).1 = ifname := by
    exact (@nextToken_at (read.nextToken 0).2.2 _ [] _ _ _ here (by simp) solid (Or.inl rfl)).1
  rw [handleLine_keyword sort, token, Keyword.handle, ← same]
  refine ⟨_, rfl, ?_⟩
  unfold handleAuto
  dsimp only
  rw [argument, if_neg fun none => some_ none.1]
  exact ⟨rfl, rfl⟩

theorem tokensFrom_word {buf : Buffer} {p : Nat} {word rest : Str} {c : UInt8} (here : buf.drop p = word ++ c :: rest)
    (solid : Solid word) (some_ : word ≠ []) (stop : c = 0 ∨ isSpace c = true) :
    ∃ buf' p', tokensFrom buf p = word :: tokensFrom buf' p' ∧ buf'.drop p' = rest := by
  have splits : Splits (buf.drop p) [] word (c :: rest) := by
    refine ⟨here, by simp, solid, ?_⟩
    rintro d ⟨⟩
    exact stop.imp_right fun space => ⟨some_, space⟩
  obtain ⟨-, -, behind, -⟩ := lifNextTokenAt_text buf p
  refine ⟨_, _, ?_, behind.trans (by rw [splits.nextWord]; rfl)⟩
  rw [tokensFrom_cons, splits.nextWord, if_neg some_]

theorem tokensFrom_end {buf : Buffer} {p : Nat} {rest : Str} (here : buf.drop p = 0 :: rest) : tokensFrom buf p = [[]] := by
  have splits : Splits (buf.drop p) [] [] (0 :: rest) := by
    refine ⟨here, by simp, by simp [Solid], ?_⟩
    rintro d ⟨⟩
    exact Or.inl rfl
  rw [tokensFrom_cons, splits.nextWord, if_pos rfl]

theorem ifaceLine_tokens {buf : Buffer} {p : Nat} {behind : Str} {noDefaults : Bool} (solid : Solid ifname) (some_ : ifname ≠ [])
    (here : buf.drop p = (ifname ++ if noDefaults then str " no-defaults" else []) ++ 0 :: 0 :: behind) :
    tokensFrom buf p = ifname :: (if noDefaults then [str "no-defaults"] else []) ++ [[]] := by
  cases noDefaults with
  | false =>
    obtain ⟨buf', p', tokens, rest⟩ := tokensFrom_word (by simpa using here) solid some_ (Or.inl rfl)
    rw [tokens, tokensFrom_end rest]
    rfl
  | true =>
    have hint : str " no-defaults" = 32 :: str "no-defaults" := by decide
    have words : buf.drop p = ifname ++ 32 :: (str "no-defaults" ++ 0 :: 0 :: behind) := by
      rw [here, if_pos rfl, hint]
      simp
    obtain ⟨buf', p', tokens, rest⟩ := tokensFrom_word words solid some_ (Or.inr rfl)
    obtain ⟨buf'', p'', tokens', rest'⟩ := tokensFrom_word rest (by decide) (by decide) (Or.inl rfl)
    rw [tokens, tokens', tokensFrom_end rest']
    rfl

theorem takeHints_printed (noDefaults : Bool) (state : ParseState) :
    takeHints host ifname ((if noDefaults then [str "no-defaults"] else []) ++ [[]]) state =
      some (if noDefaults then state.change host ifname .noDefaults else state) := by
  cases noDefaults with
  | false => rfl
  | true =>
    have other : str "no-defaults" ≠ [] ∧ ¬ (str "no-defaults" = str "dhcp" ∨ str "no-defaults" = str "ppp") ∧
        str "no-defaults" ≠ str "inherits" := by decide
    simp only [if_true, List.cons_append, List.nil_append, takeHints, if_neg other.1, if_neg other.2.1, if_neg other.2.2]

/-- Without the defaults an interface is entered, marked, and left as it is. -/
theorem enterIface_printed {isTemplate noDefaults : Bool} (optsOut : isTemplate = true ∨ noDefaults = true) (some_ : ifname ≠ [])
    (state : ParseState) :
    ∃ entered, enterIface host (if isTemplate then str "template" else str "iface") ifname
        ((if noDefaults then [str "no-defaults"] else []) ++ [[]]) state = some entered ∧
      entered.curIface = some ifname ∧ entered.collection =
        (lifInterfaceCollectionFind (state.finalize host).collection ifname).2.alter host ifname
          (headChanges isTemplate noDefaults) := by
  have plain : ¬ (str "iface" = str "template" ∨ str "iface" = str "defaults") := by decide
  unfold enterIface
  rw [if_neg some_]
  dsimp only
  have found : ((state.finalize host).find ifname).collection =
      (lifInterfaceCollectionFind (state.finalize host).collection ifname).2 := rfl
  rw [← found]
  generalize (state.finalize host).find ifname = found
  rw [takeHints_printed, Option.bind_some]
  cases isTemplate with
  | true =>
    simp only [if_true]
    cases noDefaults with
    | true => exact ⟨_, if_neg (by simp [ParseState.change, iface_write, Change.apply]), rfl, rfl⟩
    | false => exact ⟨_, if_neg (by simp [ParseState.change, iface_write, Change.apply]), rfl, rfl⟩
  | false =>
    obtain rfl : noDefaults = true := optsOut.resolve_left Bool.false_ne_true
    simp only [if_true, Bool.false_eq_true, if_false, if_neg plain]
    exact ⟨_, if_neg (by simp [ParseState.change, iface_write, Change.apply]), rfl, rfl⟩

/-- An `iface` or `template` line that does not ask for the defaults finalizes the current interface and enters its own. -/
theorem iface_handled {isTemplate noDefaults : Bool} (optsOut : isTemplate = true ∨ noDefaults = true) (solid : Solid ifname)
    (some_ : ifname ≠ []) :
    ∃ next, handleLine host parse (state.load (ifaceLine ifname isTemplate noDefaults ++ [0])) = some (true, next) ∧
      next.curIface = some ifname ∧ next.collection =
        (lifInterfaceCollectionFind (state.finalize host).collection ifname).2.alter host ifname
          (headChanges isTemplate noDefaults) := by
  have keyword : Solid (if isTemplate then str "template" else str "iface") ∧
      (if isTemplate then str "template" else str "iface") ≠ [] ∧
      (if isTemplate then str "template" else str "iface") ≠ str "defaults" ∧
      lineKind (if isTemplate then str "template" else str "iface") = .keyword .iface := by
    cases isTemplate <;> decide
  obtain ⟨entered, enters, inside, same⟩ := @enterIface_printed host ifname isTemplate noDefaults optsOut some_
    (state.load (ifaceLine ifname isTemplate noDefaults ++ [0])).clear
  have finalized : ((state.load (ifaceLine ifname isTemplate noDefaults ++ [0])).clear.finalize host).collection =
      (state.finalize host).collection := by
    unfold ParseState.finalize
    have current : (state.load (ifaceLine ifname isTemplate noDefaults ++ [0])).clear.curIface = state.curIface := rfl
    rw [current]
    split <;> rfl
  rw [finalized] at same
  unfold ifaceLine at enters ⊢
  revert keyword enters
  generalize (if isTemplate then str "template" else str "iface") = token
  rintro ⟨word, nonempty, other, kind⟩ enters
  obtain ⟨first, behind, here⟩ := @load_first state _ [] token (ifname ++ if noDefaults then str " no-defaults" else [])
    (by simp) word nonempty rfl
  have tokens := ifaceLine_tokens solid some_ here
  rw [List.nil_append] at first tokens
  revert first tokens enters
  generalize state.load (token ++ 32 :: (ifname ++ if noDefaults then str " no-defaults" else []) ++ [0]) = read
  intro enters first tokens
  have sort : read.kind = .keyword .iface := by rw [ParseState.kind, first, kind]
  have handled := @handleIface_enters host (read.nextToken 0).2.2 token (read.nextToken 0).2.1
  rw [tokens, ifaceTokens, if_neg other] at handled
  obtain ⟨next, made, rfl⟩ := Option.map_eq_some_iff.mp (handled.trans enters)
  rw [handleLine_keyword sort, first, Keyword.handle, made]
  exact ⟨next, rfl, inside, same⟩

theorem blank_handled : ∃ next, handleLine host parse (state.load ([] ++ [0])) = some (true, next) ∧
    next.curIface = state.curIface ∧ next.collection = state.collection := by
  have here : (state.load ([] ++ [0])).linebuf.drop 0 = [] ++ [] ++ 0 :: (0 :: state.linebuf.drop 2) := rfl
  obtain ⟨token, -⟩ := nextToken_at here (by simp) (by simp [Solid]) (Or.inl rfl)
  have sort : (state.load ([] ++ [0])).kind = .blank := by
    rw [ParseState.kind, token]
    rfl
  exact ⟨_, handleLine_blank sort, rfl, rfl⟩

end

end Ifupdown
