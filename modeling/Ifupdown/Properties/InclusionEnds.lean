import Ifupdown.Parser.Inclusion
import Ifupdown.Parser.Lookups
import Ifupdown.Parser.Walks

/-! The parser ends on any files that include each other. -/
namespace Ifupdown

def becomesTemplate (state : ParseState) (token ifname : Str) : Bool :=
  (state.collection.iface ifname).isTemplate || token == str "template" || token == str "defaults"

/-- Whether the hints of an `iface` line, or the defaults, make the interface inherit from itself. -/
def entersItself (host : Host) (state : ParseState) (token ifname : Str) (hints : List (Str × Nat)) : Bool :=
  ((host.config.allowAnyIfaceAsTemplate || becomesTemplate state token ifname) &&
      ((hintTargets hints).map Prod.fst).contains ifname) ||
    (ifname == str "defaults" && !becomesTemplate state token ifname && !(state.collection.iface ifname).noDefaults &&
      !((hints.map Prod.fst).takeWhile (· != [])).contains (str "no-defaults"))

def ParseState.inheritsItself (host : Host) (state : ParseState) : Bool :=
  match state.kind with
  | .keyword .inherit =>
    state.curIface == some state.argument && state.argument != [] &&
      (host.config.allowAnyIfaceAsTemplate || (state.collection.iface state.argument).isTemplate)
  | .keyword .iface =>
    let token := (state.nextToken 0).1
    if token = str "defaults" then entersItself host state token (str "defaults") state.calls
    else
      match state.calls with
      | [] => false
      | name :: hints => entersItself host state token name.1 hints
  | _ => false

section
variable {host : Host} {state state' : ParseState} {collection : Collection} {ifname parent token target : Str}

theorem inherit_ends (config : LifConfig) (collection : Collection) (other : ifname ≠ parent) :
    ∃ collection', lifInterfaceCollectionInherit config collection ifname parent = some collection' := by
  cases inherits : lifInterfaceCollectionInherit config collection ifname parent with
  | none => exact absurd (inherit_none.mp inherits).1 other
  | some collection' => exact ⟨collection', rfl⟩

structure Flagged (ifname : Str) (state state' : ParseState) : Prop where
  current : state'.curIface = state.curIface
  isTemplate : (state'.collection.iface ifname).isTemplate = (state.collection.iface ifname).isTemplate
  noDefaults : (state.collection.iface ifname).noDefaults = true → (state'.collection.iface ifname).noDefaults = true

theorem Flagged.trans {state'' : ParseState} (first : Flagged ifname state state') (second : Flagged ifname state' state'') :
    Flagged ifname state state'' :=
  ⟨second.current.trans first.current, second.isTemplate.trans first.isTemplate, second.noDefaults ∘ first.noDefaults⟩

theorem change_flagged {step : Change} (keeps : ∀ iface, (step.apply host iface).isTemplate = iface.isTemplate ∧
    (iface.noDefaults = true → (step.apply host iface).noDefaults = true)) :
    Flagged ifname state (state.change host ifname step) := by
  have after : (state.change host ifname step).collection.iface ifname = step.apply host (state.collection.iface ifname) := by
    unfold ParseState.change
    rw [iface_write, if_pos rfl]
  refine ⟨rfl, ?_, ?_⟩
  · rw [after]
    exact (keeps _).1
  · rw [after]
    exact (keeps _).2

theorem useExecutor_keeps (executor : Str) (iface : LifInterface) :
    ((Change.useExecutor executor).apply host iface).isTemplate = iface.isTemplate ∧
      (iface.noDefaults = true → ((Change.useExecutor executor).apply host iface).noDefaults = true) := by
  obtain ⟨_, _, _, same⟩ := lifInterfaceUseExecutor_frame host.dhcpHostname iface executor
  rw [Change.apply, same]
  exact ⟨rfl, id⟩

theorem inheritTarget_ends (current : state.curIface = some ifname)
    (other : target = ifname → host.config.allowAnyIfaceAsTemplate = false ∧ (state.collection.iface ifname).isTemplate = false ∨
      target = []) :
    ∃ state', inheritTarget host state token target = some state' ∧ Flagged ifname state state' := by
  unfold inheritTarget
  rw [current]
  dsimp only
  have refused (before : ParseState) (alike : ∀ x, before.collection.iface x = state.collection.iface x)
      (same : before.curIface = state.curIface) : Flagged ifname state (before.change host ifname .configError) := by
    have changed : Flagged ifname before (before.change host ifname .configError) := change_flagged fun iface => ⟨rfl, id⟩
    exact ⟨changed.current.trans same, by rw [← alike]; exact changed.isTemplate, by rw [← alike]; exact changed.noDefaults⟩
  split
  · exact ⟨_, rfl, refused _ (fun x => rfl) rfl⟩
  rename_i some_
  have found (x : Str) : (state.find target).collection.iface x = state.collection.iface x := iface_collectionFind ..
  split
  · exact ⟨_, rfl, refused _ found rfl⟩
  rename_i allowed
  have apart : ifname ≠ target := by
    rintro rfl
    obtain ⟨any, template⟩ := (other rfl).resolve_right some_
    exact allowed (by rw [found, any, template]; rfl)
  obtain ⟨collection', inherited⟩ := inherit_ends host.config (state.find target).collection apart
  obtain ⟨vars, -, after⟩ := inherit_iface inherited
  refine ⟨_, congrArg (Option.map _) inherited, ⟨rfl, ?_, ?_⟩⟩
  · dsimp only
    rw [after, if_pos rfl, if_neg apart.symm, ← found]
  · dsimp only
    rw [after, if_pos rfl, if_neg apart.symm, ← found]
    exact id

theorem takeHints_ends {calls : List (Str × Nat)} (current : state.curIface = some ifname)
    (others : (host.config.allowAnyIfaceAsTemplate || (state.collection.iface ifname).isTemplate) = true →
      ifname ∉ (hintTargets calls).map Prod.fst) :
    ∃ state', takeHints host ifname (calls.map Prod.fst) state = some state' ∧ Flagged ifname state state' ∧
      (str "no-defaults" ∈ (calls.map Prod.fst).takeWhile (· != []) → (state'.collection.iface ifname).noDefaults = true) := by
  induction calls generalizing state with
  | nil => exact ⟨state, rfl, ⟨rfl, rfl, id⟩, by simp⟩
  | cons call rest ih =>
    obtain ⟨hint, last⟩ := call
    have later : (host.config.allowAnyIfaceAsTemplate || (state.collection.iface ifname).isTemplate) = true → hint ≠ [] →
        ifname ∉ (hintTargets rest).map Prod.fst := by
      intro allowed some_ member
      refine others allowed ?_
      unfold hintTargets
      rw [if_neg some_]
      split
      · rw [List.map_append]
        exact List.mem_append_right _ member
      · exact member
    have proceed (next : ParseState) (step : Flagged ifname state next) (some_ : hint ≠ [])
        (sets : hint = str "no-defaults" → (next.collection.iface ifname).noDefaults = true) :
        ∃ state', takeHints host ifname (rest.map Prod.fst) next = some state' ∧ Flagged ifname state state' ∧
          (str "no-defaults" ∈ (((hint, last) :: rest).map Prod.fst).takeWhile (· != []) →
            (state'.collection.iface ifname).noDefaults = true) := by
      obtain ⟨state', takes, flagged, marked⟩ := ih (step.current.trans current) (by
        rw [step.isTemplate]
        exact fun allowed => later allowed some_)
      refine ⟨state', takes, step.trans flagged, fun member => ?_⟩
      rw [List.map_cons, List.takeWhile_cons_of_pos (by simpa using some_)] at member
      rcases List.mem_cons.mp member with here | there
      · exact flagged.noDefaults (sets here.symm)
      · exact marked there
    rw [List.map_cons]
    unfold takeHints
    dsimp only
    split
    · rename_i none
      exact ⟨state, rfl, ⟨rfl, rfl, id⟩, by simp [none]⟩
    rename_i some_
    split
    · rename_i executor
      refine proceed _ (change_flagged (useExecutor_keeps hint)) some_ ?_
      intro same
      rw [same] at executor
      exact absurd executor (by decide)
    split
    · rename_i inherits
      have other (same : (rest.map Prod.fst).headD [] = ifname) : (host.config.allowAnyIfaceAsTemplate = false ∧
          (state.collection.iface ifname).isTemplate = false) ∨ (rest.map Prod.fst).headD [] = [] := by
        rw [← Bool.or_eq_false_iff, or_iff_not_imp_right]
        intro named
        rw [← Bool.not_eq_true]
        intro allowed
        refine others allowed ?_
        unfold hintTargets
        rw [if_neg some_, if_pos inherits, List.map_append]
        refine List.mem_append_left _ ?_
        cases rest with
        | nil => exact absurd rfl named
        | cons call rest =>
          rw [List.map_cons, List.headD_cons] at same named
          simp [same, same ▸ named]
      obtain ⟨next, took, step⟩ : ∃ next, inheritTarget host state hint _ = some next ∧ _ := inheritTarget_ends current other
      rw [took]
      refine proceed next step some_ fun same => ?_
      rw [inherits] at same
      exact absurd same (by decide)
    split
    · rename_i marks
      refine proceed _ (change_flagged fun iface => ⟨rfl, fun _ => rfl⟩) some_ fun _ => ?_
      unfold ParseState.change
      rw [iface_write, if_pos rfl]
      rfl
    · rename_i other
      exact proceed state ⟨rfl, rfl, id⟩ some_ fun same => absurd same other

theorem enterIface_ends {calls : List (Str × Nat)} (others : entersItself host state token ifname calls = false) :
    ∃ state', enterIface host token ifname (calls.map Prod.fst) state = some state' := by
  unfold entersItself at others
  rw [Bool.or_eq_false_iff] at others
  obtain ⟨hints, defaults⟩ := others
  unfold enterIface
  split
  · exact ⟨_, rfl⟩
  dsimp only
  have finalized (x : Str) : ((state.finalize host).collection.iface x).isTemplate = (state.collection.iface x).isTemplate ∧
      ((state.finalize host).collection.iface x).noDefaults = (state.collection.iface x).noDefaults := by
    unfold ParseState.finalize
    split
    · exact ⟨rfl, rfl⟩
    · unfold ParseState.change
      dsimp only
      rw [iface_write]
      split <;> exact ⟨rfl, rfl⟩
  have marked : ∃ marked : ParseState, (if token = str "template" ∨ token = str "defaults" then
        ({ (state.finalize host).find ifname with curIface := some ifname } : ParseState).change host ifname .markTemplate
        else { (state.finalize host).find ifname with curIface := some ifname }) = marked ∧
      marked.curIface = some ifname ∧ (marked.collection.iface ifname).isTemplate = becomesTemplate state token ifname ∧
      (marked.collection.iface ifname).noDefaults = (state.collection.iface ifname).noDefaults := by
    have found : ((state.finalize host).find ifname).collection.iface ifname = (state.finalize host).collection.iface ifname :=
      iface_collectionFind ..
    unfold becomesTemplate
    by_cases marks : token = str "template" ∨ token = str "defaults"
    · refine ⟨_, if_pos marks, rfl, ?_⟩
      unfold ParseState.change
      dsimp only
      rw [iface_write, if_pos rfl, found, Bool.or_assoc]
      have keyword : (token == str "template" || token == str "defaults") = true := by simpa using marks
      rw [keyword, Bool.or_true]
      exact ⟨rfl, (finalized ifname).2⟩
    · refine ⟨_, if_neg marks, rfl, ?_⟩
      dsimp only
      have keyword : (token == str "template" || token == str "defaults") = false := by simpa using marks
      rw [found, Bool.or_assoc, keyword, Bool.or_false]
      exact finalized ifname
  obtain ⟨marked, same, current, template, kept⟩ := marked
  rw [same]
  have others : (host.config.allowAnyIfaceAsTemplate || (marked.collection.iface ifname).isTemplate) = true →
      ifname ∉ (hintTargets calls).map Prod.fst := by
    rw [template]
    intro allowed
    rw [allowed, Bool.true_and] at hints
    simpa using hints
  obtain ⟨hinted, takes, flagged, sets⟩ := takeHints_ends current others
  rw [takes, Option.bind_some]
  split
  · rename_i plain
    rw [flagged.isTemplate, template, Bool.and_eq_true, Bool.not_eq_true', Bool.not_eq_true'] at plain
    obtain ⟨untemplated, wanted⟩ := plain
    have apart : ifname ≠ str "defaults" := by
      intro own
      have unset : (state.collection.iface ifname).noDefaults = false := by
        rw [← Bool.not_eq_true, ← kept]
        intro set
        rw [flagged.noDefaults set] at wanted
        cases wanted
      have unhinted : ((calls.map Prod.fst).takeWhile (· != [])).contains (str "no-defaults") = false := by
        rw [← Bool.not_eq_true, List.contains_iff_mem]
        intro member
        rw [sets member] at wanted
        cases wanted
      rw [untemplated, unset, unhinted, beq_iff_eq.mpr own] at defaults
      cases defaults
    obtain ⟨collection', inherited⟩ := inherit_ends host.config (hinted.find (str "defaults")).collection apart
    exact ⟨_, congrArg (Option.map _) inherited⟩
  · exact ⟨_, rfl⟩

/-- A line ends by itself that does not make an interface inherit from itself. -/
theorem handleLine_ends (others : state.inheritsItself host = false) :
    ∃ ok own, handleLine host skip state = some (ok, own) := by
  unfold ParseState.inheritsItself at others
  cases kind : state.kind with
  | blank => exact ⟨_, _, handleLine_blank kind⟩
  | generic => exact ⟨_, _, handleLine_generic kind⟩
  | keyword parserkw =>
    have some_ : (state.nextToken 0).1 ≠ [] := kind_token (by rw [kind]; simp)
    rw [handleLine_keyword kind]
    simp only [kind] at others
    cases parserkw with
    | address | auto | hostname | gateway | use => exact ⟨_, _, rfl⟩
    | source =>
      simp only [Keyword.handle, handleSource, sourceLoop_include, includeLoop_skip]
      repeat' split
      all_goals exact ⟨_, _, rfl⟩
    | sourceDirectory =>
      simp only [Keyword.handle, handleSourceDirectory, directoryLoop_include, includeLoop_skip]
      repeat' split
      all_goals exact ⟨_, _, rfl⟩
    | inherit =>
      have target : ∃ next, inheritTarget host (state.nextToken 0).2.2 (state.nextToken 0).1 state.argument = some next := by
        cases current : state.curIface with
        | none =>
          unfold inheritTarget
          have outside : (state.nextToken 0).2.2.curIface = none := current
          rw [outside]
          exact ⟨_, rfl⟩
        | some ifname =>
          obtain ⟨next, took, -⟩ := @inheritTarget_ends host (state.nextToken 0).2.2 ifname (state.nextToken 0).1 state.argument
            current (by
              intro same
              rw [current, same, beq_self_eq_true, Bool.true_and, Bool.and_eq_false_iff, Bool.or_eq_false_iff] at others
              exact others.symm.imp_right fun none => same.trans (by simpa using none))
          exact ⟨next, took⟩
      obtain ⟨next, took⟩ := target
      simp only [Keyword.handle]
      rw [handleInherit_target]
      exact ⟨_, _, congrArg (fun inherited => (Option.map _ inherited).map _) took⟩
    | iface =>
      have enters := @handleIface_enters host (state.nextToken 0).2.2 (state.nextToken 0).1 (state.nextToken 0).2.1
      rw [tokensFrom_calls some_] at enters
      have ends : ∃ next, enterIface host (state.nextToken 0).1
          (ifaceTokens (state.nextToken 0).1 (state.calls.map Prod.fst)).1
          (ifaceTokens (state.nextToken 0).1 (state.calls.map Prod.fst)).2 (state.nextToken 0).2.2.clear = some next := by
        unfold ifaceTokens
        dsimp only at others
        split
        · rename_i defaults
          rw [if_pos defaults] at others
          exact @enterIface_ends host (state.nextToken 0).2.2.clear _ _ state.calls others
        · rename_i named
          obtain ⟨last, later, calls⟩ := calls_argument some_
          rw [if_neg named, calls] at others
          rw [calls]
          exact @enterIface_ends host (state.nextToken 0).2.2.clear _ _ later others
      obtain ⟨next, entered⟩ := ends
      obtain ⟨own, handled, -⟩ := Option.map_eq_some_iff.mp (enters.trans entered)
      exact ⟨true, own, congrArg (Option.map _) handled⟩

def missing (names : Finset Str) (state : ParseState) : Nat := (names.filter (· ∉ lifDictKeys state.loaded)).card

theorem missing_loads {names : Finset Str} {opened : List Str} (loads : Loads state opened state') :
    missing names state' ≤ missing names state := by
  refine Finset.card_le_card (Finset.monotone_filter_right names fun name _ absent => ?_)
  rw [loads.loaded, List.mem_append, not_or] at absent
  exact absent.1

theorem missing_opened {names : Finset Str} {name : Str} {opened : List Str} (loads : Loads state (name :: opened) state')
    (member : name ∈ names) : missing names state' < missing names state := by
  refine Finset.card_lt_card ⟨Finset.monotone_filter_right names fun name _ absent => ?_, fun back => ?_⟩
  · rw [loads.loaded, List.mem_append, not_or] at absent
    exact absent.1
  · have before := loads.fresh name List.mem_cons_self
    have after := (Finset.mem_filter.mp (back (Finset.mem_filter.mpr ⟨member, before⟩))).2
    rw [loads.loaded] at after
    exact after (List.mem_append_right _ List.mem_cons_self)

/-- The files that the line includes have these names, and no interface inherits from itself on it. -/
def Visit.Tame (host : Host) (names : Finset Str) (visit : Visit) : Prop :=
  (∀ name ∈ (includes host visit.state).2, name ∈ names) ∧ visit.state.inheritsItself host = false

section
variable {parse : ParseState → Str → Option (Bool × ParseState)} {inner : ParseState → Str → List Visit}
  {names : Finset Str} {depth : Nat}
  (parses : ∀ (state : ParseState) (filename : Str) (ok : Bool) (state' : ParseState),
    parse state filename = some (ok, state') → ∃ opened, Reads state opened (inner state filename) state')
  (ends : ∀ (state : ParseState) (filename : Str), filename ∈ names → missing names state < depth →
    (∀ visit ∈ inner state filename, visit.Tame host names) → ∃ ok state', parse state filename = some (ok, state'))
include parses ends

theorem includeLoop_ends {strict ok : Bool} {listed : List Str} (inside : ∀ name ∈ listed, name ∈ names)
    (deep : missing names state < depth) (tame : ∀ visit ∈ includeVisits parse inner strict listed state, visit.Tame host names) :
    ∃ ok' state', includeLoop parse strict listed ok state = some (ok', state') := by
  induction listed generalizing state ok with
  | nil => exact ⟨ok, state, rfl⟩
  | cons name rest ih =>
    unfold includeVisits at tame
    obtain ⟨here, later⟩ := List.forall_mem_append.mp tame
    obtain ⟨first, others⟩ := List.forall_mem_cons.mp inside
    obtain ⟨parsed, next, result⟩ := ends state name first deep here
    obtain ⟨opened, reads⟩ := parses state name parsed next result
    unfold includeLoop
    rw [result] at later ⊢
    dsimp only at later ⊢
    split
    · exact ⟨_, _, rfl⟩
    · rename_i go
      rw [if_neg go] at later
      exact ih others (Nat.lt_of_le_of_lt (missing_loads reads.toLoads) deep) later

theorem lineLoop_ends {count : Nat} {stream : Str} (enough : stream.length < count) (deep : missing names state < depth)
    (tame : ∀ visit ∈ lineVisits host parse inner count stream state, visit.Tame host names) :
    ∃ ok state', lineLoop (handleLine host parse) count stream state = some (ok, state') := by
  induction count generalizing state stream with
  | zero => omega
  | succ count ih =>
    unfold lineVisits at tame
    unfold lineLoop
    split
    · exact ⟨_, _, rfl⟩
    rename_i linebuf rest read
    rw [read] at tame
    dsimp only at tame
    generalize visited : ({ state with linebuf := linebuf, curLineno := state.curLineno + 1 } : ParseState) = line at tame ⊢
    have loaded : line.loaded = state.loaded := by rw [← visited]
    obtain ⟨⟨inside, others⟩, behind⟩ := List.forall_mem_cons.mp tame
    obtain ⟨nested, later⟩ := List.forall_mem_append.mp behind
    obtain ⟨fine, own, handled⟩ := handleLine_ends others
    have placed := (handleLine_placed handled).loaded.trans loaded
    rw [handled] at nested
    have nearer := Nat.lt_of_le_of_lt (missing_loads (.none placed)) deep
    obtain ⟨ok, next, included⟩ : ∃ ok next, includeLoop parse _ _ fine own = some (ok, next) :=
      includeLoop_ends parses ends inside nearer nested
    have result : handleLine host parse line = some (ok, next) := by
      rw [handleLine_includes, handled]
      exact included
    rw [result] at later ⊢
    cases ok with
    | false => exact ⟨_, _, rfl⟩
    | true =>
      obtain ⟨opened, reads⟩ := includeLoop_reads parses included
      have loads := (Loads.none placed).trans reads.toLoads
      have shorter := lifFgetline_shorter (by decide) read
      exact ih (by omega) (Nat.lt_of_le_of_lt (missing_loads loads) deep) later

end

theorem parse_ends {names : Finset Str} {fuel : Nat} {filename : Str} (member : filename ∈ names)
    (deep : missing names state < fuel) (tame : ∀ visit ∈ visits host fuel state filename, visit.Tame host names) :
    ∃ ok state', lifInterfaceFileParse host fuel state filename = some (ok, state') := by
  induction fuel generalizing state filename with
  | zero => omega
  | succ fuel ih =>
    unfold visits at tame
    unfold lifInterfaceFileParse
    split
    · exact ⟨_, _, rfl⟩
    rename_i fresh
    rw [if_neg fresh] at tame
    split
    · exact ⟨_, _, rfl⟩
    rename_i f found
    rw [found] at tame
    dsimp only at tame ⊢
    generalize visited : ({ state with
        curFilename := filename
        curLineno := 0
        loaded := lifDictAdd state.loaded filename ()
        linebuf := host.stack filename } : ParseState) = first at tame ⊢
    have added : Loads state [filename] first := .filename fresh (by rw [← visited])
    have fewer := missing_opened added member
    obtain ⟨ok, last, result⟩ := lineLoop_ends (fun _ _ _ _ => parse_reads) (fun _ _ => ih) (Nat.lt_succ_self _)
      (show missing names first < fuel by omega) tame
    rw [result]
    cases ok <;> exact ⟨_, _, rfl⟩

end

/-- However files include each other, a parse ends if it finds finitely many names and no interface inherits from
itself. It has opened no file twice and visited no line twice, and is back where it was. -/
theorem inclusion_ends (host : Host) (names : Finset Str) (fuel : Nat) (enough : names.card + 1 < fuel) (state : ParseState)
    (filename : Str) (tame : ∀ visit ∈ visits host fuel state filename, visit.Tame host names) :
    ∃ ok state', lifInterfaceFileParse host fuel state filename = some (ok, state') ∧
      state'.curFilename = state.curFilename ∧ state'.curLineno = state.curLineno ∧
      ((visits host fuel state filename).map Visit.place).Nodup ∧
      ∃ opened : List Str, lifDictKeys state'.loaded = lifDictKeys state.loaded ++ opened ∧ opened.Nodup ∧
        (∀ name ∈ opened, name ∉ lifDictKeys state.loaded) ∧
        ∀ visit ∈ visits host fuel state filename, visit.state.curFilename ∈ opened := by
  have deep : missing (insert filename names) state < fuel := by
    have filtered : missing (insert filename names) state ≤ (insert filename names).card := Finset.card_filter_le ..
    have inserted := Finset.card_insert_le filename names
    omega
  obtain ⟨ok, state', parsed⟩ := parse_ends (Finset.mem_insert_self filename names) deep fun visit member =>
    (tame visit member).imp_left fun inside name listed => Finset.mem_insert_of_mem (inside name listed)
  obtain ⟨opened, reads⟩ := parse_reads parsed
  exact ⟨ok, state', parsed, reads.curFilename, reads.curLineno, reads.distinct, opened, reads.loaded, reads.once, reads.fresh,
    reads.inside⟩

instance (host : Host) (names : Finset Str) (visit : Visit) : Decidable (visit.Tame host names) :=
  inferInstanceAs (Decidable ((∀ name ∈ (includes host visit.state).2, name ∈ names) ∧ visit.state.inheritsItself host = false))

/-- Two files that include each other and themselves. -/
def cyclicFiles : Host where
  fopen name :=
    if name = str "a" then some (str "source b\niface eth0\nsource a\n")
    else if name = str "b" then some (str "source a\nsource b\n")
    else none

theorem inclusion_ends_cyclicFiles :
    ∃ ok state', lifInterfaceFileParse cyclicFiles 4 {} (str "a") = some (ok, state') ∧
      state'.curFilename = [] ∧ state'.curLineno = 0 ∧ ((visits cyclicFiles 4 {} (str "a")).map Visit.place).Nodup ∧
      ∃ opened : List Str, lifDictKeys state'.loaded = [] ++ opened ∧ opened.Nodup ∧ (∀ name ∈ opened, name ∉ []) ∧
        ∀ visit ∈ visits cyclicFiles 4 {} (str "a"), visit.state.curFilename ∈ opened :=
  inclusion_ends cyclicFiles {str "a", str "b"} 4 (by decide) {} (str "a") (by decide +kernel)

end Ifupdown
