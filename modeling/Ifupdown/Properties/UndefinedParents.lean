import Ifupdown.Parser.Inheritance
import Ifupdown.Parser.Lookups

/-! What becomes of an interface that inherits from an undefined one. -/
namespace Ifupdown

def hintParents : List Str → List Str
  | [] => []
  | token :: rest =>
    if token = [] then []
    else if token = str "inherits" then rest.headD [] :: hintParents rest
    else hintParents rest

def ParseState.stanza (state : ParseState) : Str × List Str :=
  ifaceTokens (state.nextToken 0).1 (state.calls.map Prod.fst)

def ParseState.inherits (state : ParseState) : List (Str × Str) :=
  match state.kind with
  | .keyword .inherit => state.curIface.toList.map fun ifname => (ifname, state.argument)
  | .keyword .iface =>
    if state.stanza.1 = [] then [] else (hintParents state.stanza.2).map fun parent => (state.stanza.1, parent)
  | _ => []

/-- The name that an `auto` line or the head of a stanza introduces. -/
def ParseState.introduces (state : ParseState) : List Str :=
  match state.kind with
  | .keyword .auto => [state.argument]
  | .keyword .iface => [state.stanza.1]
  | _ => []

def Collection.Flawed (collection : Collection) (x : Str) : Prop := (collection.iface x).hasConfigError = true

/-- From one collection to the other these inheritances are tried: there is an interface for each parent that is named,
and who names none is marked. -/
structure Inherited (collection collection' : Collection) (uses : List (Str × Str)) : Prop where
  had : ∀ x, collection.Has x → collection'.Has x
  found : ∀ use ∈ uses, use.2 ≠ [] → collection'.Has use.2
  flawed : ∀ x, collection'.Flawed x ↔ collection.Flawed x ∨ (x, []) ∈ uses

section
variable {host : Host} {state state' : ParseState} {collection collection' collection'' : Collection}
  {ifname parent token : Str} {uses later : List (Str × Str)}

theorem Inherited.refl : Inherited collection collection [] := ⟨fun _ has => has, by simp, by simp⟩

theorem Inherited.trans (first : Inherited collection collection' uses) (second : Inherited collection' collection'' later) :
    Inherited collection collection'' (uses ++ later) := by
  constructor
  · exact fun x has => second.had x (first.had x has)
  · intro use member named
    rcases List.mem_append.mp member with old | new
    · exact second.had _ (first.found use old named)
    · exact second.found use new named
  · intro x
    rw [second.flawed, first.flawed, List.mem_append, or_assoc]

theorem Inherited.quiet (had : ∀ x, collection.Has x → collection'.Has x)
    (kept : ∀ x, (collection'.iface x).hasConfigError = (collection.iface x).hasConfigError) : Inherited collection collection' [] :=
  ⟨had, by simp, fun x => by simp [Collection.Flawed, kept]⟩

theorem Inherited.find : Inherited collection (lifInterfaceCollectionFind collection ifname).2 [] :=
  .quiet (fun _ has => find_has.mpr (Or.inl has)) fun x => by rw [iface_collectionFind]

theorem change_flawed {step : Change} (x : Str) : (state.change host ifname step).collection.Flawed x ↔
    state.collection.Flawed x ∨ ifname = x ∧ step = .configError := by
  have effect (iface : LifInterface) : (step.apply host iface).hasConfigError = true ↔
      iface.hasConfigError = true ∨ step = .configError := by
    cases step with
    | useExecutor executor =>
      obtain ⟨_, _, _, same⟩ := lifInterfaceUseExecutor_frame host.dhcpHostname iface executor
      simp [Change.apply, same]
    | addressAdd address =>
      obtain ⟨_, _, _, same⟩ := lifInterfaceAddressAdd_frame host.inetPton iface address
      simp [Change.apply, same]
    | _ => simp [Change.apply, lifInterfaceFinalize]
  unfold ParseState.change Collection.Flawed
  dsimp only
  rw [iface_write]
  split
  · rename_i here
    simp only [here, effect, true_and]
  · rename_i other
    simp [other]

theorem change_kept {step : Change} {x : Str} (has : state.collection.Has x) : (state.change host ifname step).collection.Has x :=
  (@write_has _ _ _ _ fun iface => step.apply_ifname host iface).mpr (Or.inl has)

theorem Inherited.change {step : Change} (ordinary : step ≠ .configError) :
    Inherited state.collection (state.change host ifname step).collection [] :=
  ⟨fun _ has => change_kept has, by simp, fun x => by simp [change_flawed, ordinary]⟩

theorem Inherited.missing : Inherited state.collection (state.change host ifname .configError).collection [(ifname, [])] := by
  refine ⟨fun _ has => change_kept has, by simp, fun x => ?_⟩
  rw [change_flawed]
  simp [eq_comm]

theorem Inherited.inherit {config : LifConfig} (h : lifInterfaceCollectionInherit config collection ifname parent = some collection') :
    Inherited collection collection' [] := by
  obtain ⟨vars, -, after⟩ := inherit_iface h
  refine .quiet (fun x has => ?_) fun x => ?_
  · obtain ⟨vars, -, rfl⟩ := Option.map_eq_some_iff.mp h
    refine write_has.mpr (Or.inl (write_has.mpr (Or.inl ?_)))
    split
    · exact write_has.mpr (Or.inl has)
    · exact has
  · rw [after]
    dsimp only
    repeat' split
    all_goals rfl

theorem Inherited.finalize : Inherited state.collection (state.finalize host).collection [] := by
  unfold ParseState.finalize
  split
  · exact .refl
  · exact .change (by simp)

/-- With the default configuration the target is looked up and inherited from, unless it is missing. -/
theorem inheritTarget_inherited (defaults : host.config = {}) {target : Str}
    (h : inheritTarget host state token target = some state') (current : state.curIface = some ifname) :
    state'.curIface = some ifname ∧ Inherited state.collection state'.collection [(ifname, target)] := by
  unfold inheritTarget at h
  rw [current, defaults] at h
  dsimp only at h
  split at h
  · rename_i none
    cases h
    rw [none]
    exact ⟨current, @Inherited.missing host (reportError state _) ifname⟩
  rename_i named
  rw [Bool.not_true, Bool.false_and, if_neg Bool.false_ne_true] at h
  obtain ⟨inherited, step, rfl⟩ := Option.map_eq_some_iff.mp h
  have looked : Inherited state.collection (state.find target).collection [] := .find
  have tried : Inherited state.collection inherited [] := looked.trans (.inherit step)
  have there := (Inherited.inherit step).had target (find_has.mpr (Or.inr rfl))
  refine ⟨current, tried.had, ?_, fun x => ?_⟩
  · intro use member _
    rwa [List.mem_singleton.mp member]
  · rw [tried.flawed]
    simp [Ne.symm named]

theorem takeHints_inherited (defaults : host.config = {}) {hints : List Str} (h : takeHints host ifname hints state = some state')
    (current : state.curIface = some ifname) :
    Inherited state.collection state'.collection ((hintParents hints).map fun parent => (ifname, parent)) := by
  induction hints generalizing state with
  | nil =>
    cases h
    exact .refl
  | cons token rest ih =>
    have changed {step : Change} (ordinary : step ≠ .configError)
        (h : takeHints host ifname rest (state.change host ifname step) = some state') :
        Inherited state.collection state'.collection ((hintParents rest).map fun parent => (ifname, parent)) :=
      (Inherited.change ordinary).trans (ih h current)
    unfold hintParents
    unfold takeHints at h
    split at h
    · rename_i none
      cases h
      rw [if_pos none]
      exact .refl
    rename_i named
    rw [if_neg named]
    split at h
    · rename_i executor
      have other : token ≠ str "inherits" := by
        rcases executor with rfl | rfl <;> decide
      rw [if_neg other]
      exact changed (by simp) h
    split at h
    · rename_i inherits
      obtain ⟨next, target, later⟩ := Option.bind_eq_some_iff.mp h
      obtain ⟨kept, tried⟩ := inheritTarget_inherited defaults target current
      rw [if_pos inherits]
      exact tried.trans (ih later kept)
    rename_i other
    rw [if_neg other]
    split at h
    · exact changed (by simp) h
    · exact ih h current

theorem enterIface_inherited (defaults : host.config = {}) {hints : List Str}
    (h : enterIface host token ifname hints state = some state') : Inherited state.collection state'.collection
      (if ifname = [] then [] else (hintParents hints).map fun parent => (ifname, parent)) := by
  unfold enterIface at h
  split at h
  · rename_i none
    cases h
    rw [if_pos none]
    exact .refl
  rename_i named
  rw [if_neg named]
  obtain ⟨hinted, takes, left⟩ := Option.bind_eq_some_iff.mp h
  dsimp only at takes left
  have entered : Inherited state.collection ((state.finalize host).find ifname).collection [] := Inherited.finalize.trans .find
  have marked : ∃ marked : ParseState, takeHints host ifname hints marked = some hinted ∧ marked.curIface = some ifname ∧
      Inherited state.collection marked.collection [] := by
    split at takes
    · exact ⟨_, takes, rfl, entered.trans (.change (by simp))⟩
    · exact ⟨_, takes, rfl, entered⟩
  obtain ⟨marked, takes, current, quiet⟩ := marked
  have tried := quiet.trans (takeHints_inherited defaults takes current)
  split at left
  · obtain ⟨inherited, step, rfl⟩ := Option.map_eq_some_iff.mp left
    have looked : Inherited hinted.collection inherited [] := Inherited.trans .find (.inherit step)
    have whole := tried.trans looked
    rwa [List.append_nil] at whole
  · cases left
    exact tried

theorem edits_inherited {edits : List Edit} (ordinary : ∀ edit ∈ edits, ∀ y, edit ≠ .change y .configError)
    (h : applyEdits host collection edits = some collection') : Inherited collection collection' [] := by
  induction edits generalizing collection with
  | nil =>
    cases h
    exact .refl
  | cons edit rest ih =>
    obtain ⟨first, others⟩ := List.forall_mem_cons.mp ordinary
    rw [applyEdits_cons] at h
    obtain ⟨next, here, h⟩ := Option.bind_eq_some_iff.mp h
    have step : Inherited collection next [] := by
      cases edit with
      | find ifname =>
        cases here
        exact .find
      | change ifname step =>
        cases here
        exact @Inherited.change host { collection := collection } ifname step fun same => first ifname (by rw [same])
      | inherit ifname parent => exact .inherit here
    exact step.trans (ih others h)

theorem handleLine_inherited (defaults : host.config = {}) {ok : Bool} (h : handleLine host skip state = some (ok, state')) :
    Inherited state.collection state'.collection state.inherits := by
  have ordinary (none : state.inherits = []) (unmarked : ∀ y, ¬ state.kind.Makes (.change y .configError)) :
      Inherited state.collection state'.collection state.inherits := by
    obtain ⟨made, -, reached, makes⟩ := handleLine_grown h
    rw [none]
    refine edits_inherited (fun edit member y same => unmarked y ?_) reached
    rw [← same]
    exact makes edit member
  unfold ParseState.inherits at ordinary ⊢
  cases kind : state.kind with
  | blank => exact (kind ▸ ordinary) rfl fun _ => id
  | generic => exact (kind ▸ ordinary) rfl fun _ => id
  | keyword parserkw =>
    have named : (state.nextToken 0).1 ≠ [] := kind_token (by rw [kind]; simp)
    rw [handleLine_keyword kind] at h
    cases parserkw with
    | address | auto | hostname | gateway | use | source | sourceDirectory => exact (kind ▸ ordinary) rfl fun _ => id
    | inherit =>
      obtain ⟨own, inherits, same⟩ := Option.map_eq_some_iff.mp h
      cases same
      rw [handleInherit_target] at inherits
      obtain ⟨next, target, rfl⟩ := Option.map_eq_some_iff.mp inherits
      dsimp only
      cases current : state.curIface with
      | none =>
        have outside : (state.nextToken 0).2.2.curIface = none := current
        unfold inheritTarget at target
        rw [outside] at target
        cases target
        exact .refl
      | some ifname => exact (inheritTarget_inherited defaults target current).2
    | iface =>
      obtain ⟨own, entered, same⟩ := Option.map_eq_some_iff.mp h
      cases same
      have enters := (congrArg (Option.map ParseState.clear) entered).symm.trans handleIface_enters
      rw [tokensFrom_calls named] at enters
      exact @enterIface_inherited host (state.nextToken 0).2.2.clear state'.clear _ _ defaults _ enters.symm

theorem Quiet.inherited (quiet : Quiet host state state') : Inherited state.collection state'.collection [] := by
  induction quiet with
  | refl => exact .refl
  | tail _ step ih =>
    cases step with
    | same alike =>
      rw [alike.collection]
      exact ih
    | finalize => exact ih.trans .finalize

theorem Run.inherited (defaults : host.config = {}) {lines : List Visit} (run : Run host state lines state') :
    Inherited state.collection state'.collection (lines.flatMap fun visit => visit.state.inherits) := by
  induction run with
  | done quiet => exact quiet.inherited
  | line quiet handled _ ih =>
    rw [List.flatMap_cons]
    exact (quiet.inherited.trans (handleLine_inherited defaults handled)).trans ih

end

/-- The line of the visit has the interface inherit from what no line before it has introduced. -/
structure UndefinedParent (before : List Visit) (visit : Visit) (ifname target : Str) : Prop where
  inherits : (ifname, target) ∈ visit.state.inherits
  named : target ≠ []
  builtin : target ≠ str "lo"
  unknown : ∀ earlier ∈ before, target ∉ earlier.state.introduces

/-- The interface has the mark that keeps it from being brought up, and there is none for the target. -/
def Collection.Reports (collection : Collection) (ifname target : Str) : Prop :=
  collection.Flawed ifname ∧ ¬ collection.Has target

/-- An undefined target is in the collection at once and to the end, and only an inheritance without a target is an error. -/
theorem undefined_unreported (host : Host) (fuel : Nat) (filename : Str) (ok : Bool) (state : ParseState)
    (defaults : host.config = {}) (parsed : lifInterfaceFileParse host fuel {} filename = some (ok, state))
    (before later : List Visit) (visit : Visit) (lines : visits host fuel {} filename = before ++ visit :: later)
    (ifname target : Str) (undefined : UndefinedParent before visit ifname target) :
    (∃ more behind, handleLine host skip visit.state = some (more, behind) ∧ ¬ behind.collection.Reports ifname target) ∧
      ¬ state.collection.Reports ifname target ∧
      (state.collection.Flawed ifname ↔ ∃ other ∈ visits host fuel {} filename, (ifname, []) ∈ other.state.inherits) := by
  have run := parse_run parsed
  have flaws := (run.inherited defaults).flawed ifname
  rw [lines] at run
  obtain ⟨more, behind, -, handled, rest⟩ := run.split
  have found := (handleLine_inherited defaults handled).found _ undefined.inherits undefined.named
  refine ⟨⟨more, behind, handled, fun reports => reports.2 found⟩,
    fun reports => reports.2 ((rest.inherited defaults).had target found), ?_⟩
  have start : ¬ (ParseState.collection {}).Flawed ifname := by
    have fresh : (lifInterfaceInit ifname).hasConfigError = false := by
      unfold lifInterfaceInit
      split <;> rfl
    show ¬ lifInterfaceCollectionInit.Flawed ifname
    unfold Collection.Flawed
    rw [lifInterfaceCollectionInit, iface_write]
    split
    · rename_i lo
      subst lo
      decide
    · show ¬ (lifInterfaceInit ifname).hasConfigError = true
      rw [fresh]
      exact Bool.false_ne_true
  rw [flaws]
  simp [start]

def undefinedParent : Host := oneFile "iface eth0\ninherit base\n"

theorem undefinedParent_parsed :
    lifInterfaceFileParse undefinedParent 2 {} (str "interfaces") = some (true, undefinedParent.read) :=
  read_parsed (by decide +kernel)

theorem undefinedParent_undefined : ∃ before visit, visits undefinedParent 2 {} (str "interfaces") = before ++ visit :: [] ∧
    UndefinedParent before visit (str "eth0") (str "base") := by
  have two : (visits undefinedParent 2 {} (str "interfaces")).length = 2 := by decide +kernel
  obtain ⟨head, visit, lines⟩ := List.length_eq_two.mp two
  have uses : (visits undefinedParent 2 {} (str "interfaces")).map (fun visit => visit.state.inherits) =
      [[], [(str "eth0", str "base")]] := by decide +kernel
  have names : (visits undefinedParent 2 {} (str "interfaces")).map (fun visit => visit.state.introduces) =
      [[str "eth0"], []] := by decide +kernel
  rw [lines] at uses names
  simp only [List.map_cons, List.map_nil, List.cons.injEq, and_true] at uses names
  refine ⟨[head], visit, lines, by rw [uses.2]; decide, by decide, by decide, ?_⟩
  intro earlier member
  rw [List.mem_singleton.mp member, names.1]
  decide

theorem undefined_unreported_parent : ∃ before visit, UndefinedParent before visit (str "eth0") (str "base") ∧
    ¬ undefinedParent.read.collection.Reports (str "eth0") (str "base") := by
  obtain ⟨before, visit, lines, undefined⟩ := undefinedParent_undefined
  exact ⟨before, visit, undefined, (undefined_unreported undefinedParent 2 (str "interfaces") true undefinedParent.read rfl
    undefinedParent_parsed before [] visit lines (str "eth0") (str "base") undefined).2.1⟩

theorem undefined_reported_parent : ¬ ∀ (host : Host) (fuel : Nat) (filename : Str) (ok : Bool) (state : ParseState),
    host.config = {} → lifInterfaceFileParse host fuel {} filename = some (ok, state) →
    ∀ (before later : List Visit) (visit : Visit), visits host fuel {} filename = before ++ visit :: later →
    ∀ ifname target, UndefinedParent before visit ifname target → state.collection.Reports ifname target := by
  intro claim
  obtain ⟨before, visit, lines, undefined⟩ := undefinedParent_undefined
  have reports := claim undefinedParent 2 (str "interfaces") true undefinedParent.read rfl undefinedParent_parsed before []
    visit lines (str "eth0") (str "base") undefined
  have flawless : (undefinedParent.read.collection.iface (str "eth0")).hasConfigError = false := by decide +kernel
  exact absurd (flawless.symm.trans reports.1) Bool.false_ne_true

end Ifupdown
