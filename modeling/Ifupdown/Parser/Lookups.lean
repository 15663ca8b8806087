import Ifupdown.Parser.Handling
import Ifupdown.Parser.Traced

/-! Which interfaces a line looks up, and what the collection holds behind it. -/
namespace Ifupdown

abbrev Collection.Has (collection : Collection) (ifname : Str) : Prop := ifname ∈ lifDictKeys collection.entries

/-- The token calls behind the keyword: what each returns, and the last byte that it reads. -/
def ParseState.calls (state : ParseState) : List (Str × Nat) :=
  (wordCalls (state.linebuf.length + 1) 0 state.linebuf).tail

def hintTargets : List (Str × Nat) → List (Str × Nat)
  | [] => []
  | (token, _) :: rest =>
    if token = [] then []
    else if token = str "inherits" then (rest.head?.toList.filter fun target => target.1 ≠ []) ++ hintTargets rest
    else hintTargets rest

/-- The names other than `defaults` itself that the handler of a line looks up. -/
def ParseState.lookups (state : ParseState) : List (Str × Nat) :=
  match state.kind with
  | .keyword .auto => state.calls.head?.toList.filter fun name => name.1 ≠ [] ∨ state.curIface ≠ none
  | .keyword .inherit => state.calls.head?.toList.filter fun name => name.1 ≠ [] ∧ state.curIface ≠ none
  | .keyword .iface =>
    if (state.nextToken 0).1 = str "defaults" then hintTargets state.calls
    else
      match state.calls with
      | [] => []
      | name :: hints => if name.1 = [] then [] else name :: hintTargets hints
  | _ => []

def ParseState.Held (state : ParseState) : Prop := ∀ ifname ∈ state.curIface, state.collection.Has ifname

section
variable {host : Host} {state state' : ParseState} {collection collection' : Collection} {ifname parent token x : Str}

theorem find_has : (lifInterfaceCollectionFind collection ifname).2.Has x ↔ collection.Has x ∨ x = ifname := by
  rw [Collection.Has, collectionFind_keys, List.mem_append]
  split
  · rename_i present
    have known : collection.Has ifname := by
      by_contra absent
      rw [lifDictFind_none.mpr absent] at present
      cases present
    constructor
    · intro member
      exact member.imp_right fun none => absurd none List.not_mem_nil
    · rintro (member | rfl)
      · exact Or.inl member
      · exact Or.inl known
  · rw [List.mem_singleton]

theorem write_has {f : LifInterface → LifInterface} {keeps : ∀ interface, (f interface).ifname = interface.ifname} :
    (collection.write ifname f keeps).Has x ↔ collection.Has x ∨ x = ifname := by
  rw [Collection.Has, Collection.write, lifDictKeys_write]
  exact find_has

theorem write_had {f : LifInterface → LifInterface} {keeps : ∀ interface, (f interface).ifname = interface.ifname}
    (has : collection.Has ifname) : (collection.write ifname f keeps).Has x ↔ collection.Has x := by
  rw [write_has, or_iff_left_of_imp]
  rintro rfl
  exact has

theorem change_had {step : Change} (has : state.collection.Has ifname) :
    (state.change host ifname step).collection.Has x ↔ state.collection.Has x :=
  @write_had _ _ _ _ (fun iface => step.apply_ifname host iface) has

theorem inherit_had {config : LifConfig} (h : lifInterfaceCollectionInherit config collection ifname parent = some collection')
    (has : collection.Has ifname) (parents : collection.Has parent) : collection'.Has x ↔ collection.Has x := by
  obtain ⟨vars, -, rfl⟩ := Option.map_eq_some_iff.mp h
  have converted (y : Str) : (if config.implicitTemplateConversion = true then
      collection.write parent (fun iface => { iface with isTemplate := true }) (fun _ => rfl)
      else collection).Has y ↔ collection.Has y := by
    split
    · exact write_had parents
    · exact Iff.rfl
  rw [write_had, write_had, converted]
  · exact (converted _).mpr has
  · exact (write_had ((converted _).mpr has)).mpr ((converted _).mpr has)

theorem inheritTarget_has {target : Str} (h : inheritTarget host state token target = some state')
    (current : state.curIface = some ifname) (has : state.collection.Has ifname) :
    state'.curIface = some ifname ∧ ∀ x, state'.collection.Has x ↔ state.collection.Has x ∨ x = target ∧ target ≠ [] := by
  unfold inheritTarget at h
  rw [current] at h
  dsimp only at h
  split at h
  · rename_i none
    cases h
    refine ⟨current, fun x => (change_had (by exact has)).trans ?_⟩
    simp [none, reportError]
  rename_i some_
  have found (y : Str) : (state.find target).collection.Has y ↔ state.collection.Has y ∨ y = target := find_has
  split at h
  · cases h
    refine ⟨current, fun x => (change_had (by exact (found _).mpr (Or.inl has))).trans ?_⟩
    simp [some_, reportError, found]
  · obtain ⟨inherited, step, rfl⟩ := Option.map_eq_some_iff.mp h
    refine ⟨current, fun x => (inherit_had step ((found _).mpr (Or.inl has)) ((found _).mpr (Or.inr rfl))).trans ?_⟩
    simp [some_, found]

theorem takeHints_has {calls : List (Str × Nat)} (h : takeHints host ifname (calls.map Prod.fst) state = some state')
    (current : state.curIface = some ifname) (has : state.collection.Has ifname) :
    state'.curIface = some ifname ∧
      ∀ x, state'.collection.Has x ↔ state.collection.Has x ∨ x ∈ (hintTargets calls).map Prod.fst := by
  induction calls generalizing state with
  | nil =>
    cases h
    simp [current, hintTargets]
  | cons call rest ih =>
    obtain ⟨token, last⟩ := call
    have changed {step : Change} (h : takeHints host ifname (rest.map Prod.fst) (state.change host ifname step) = some state') :
        state'.curIface = some ifname ∧
          ∀ x, state'.collection.Has x ↔ state.collection.Has x ∨ x ∈ (hintTargets rest).map Prod.fst := by
      obtain ⟨held, names⟩ := ih h current ((change_had has).mpr has)
      exact ⟨held, fun x => (names x).trans (or_congr_left (change_had has))⟩
    unfold hintTargets
    rw [List.map_cons] at h
    unfold takeHints at h
    dsimp only at h
    split at h
    · rename_i none
      cases h
      simp [current, none]
    rename_i some_
    rw [if_neg some_]
    split at h
    · rename_i executor
      have other : token ≠ str "inherits" := by
        rcases executor with rfl | rfl <;> decide
      rw [if_neg other]
      exact changed h
    split at h
    · rename_i inherits
      obtain ⟨next, target, later⟩ := Option.bind_eq_some_iff.mp h
      obtain ⟨held, names⟩ := inheritTarget_has target current has
      obtain ⟨held', names'⟩ := ih later held ((names _).mpr (Or.inl has))
      refine ⟨held', fun x => ?_⟩
      rw [names', names, if_pos inherits, List.map_append, List.mem_append, or_assoc]
      refine or_congr_right (or_congr_left ?_)
      cases rest with
      | nil => simp
      | cons call rest =>
        by_cases none : call.1 = []
        · simp [none]
        · simp [none]
    rename_i other
    rw [if_neg other]
    split at h
    · exact changed h
    · exact ih h current has

theorem calls_argument (some_ : (state.nextToken 0).1 ≠ []) : ∃ last later, state.calls = (state.argument, last) :: later := by
  rw [nextToken_token, List.drop_zero] at some_
  have first (fuel p : Nat) (text : Str) : ∃ last later, wordCalls (fuel + 1) p text = ((nextWord text).1, last) :: later :=
    ⟨_, _, rfl⟩
  unfold ParseState.calls
  cases size : state.linebuf.length with
  | zero =>
    rw [List.length_eq_zero_iff.mp size] at some_
    exact absurd rfl some_
  | succ n =>
    unfold wordCalls
    dsimp only
    rw [if_neg some_, List.tail_cons, argument_text]
    exact first ..

theorem tokensFrom_calls (some_ : (state.nextToken 0).1 ≠ []) :
    tokensFrom (state.nextToken 0).2.2.linebuf (state.nextToken 0).2.1 = state.calls.map Prod.fst := by
  rw [tokensFrom_tail some_, ParseState.calls, List.map_tail]
  rfl

/-- The step keeps the current interface in the collection, and adds these names and at most `defaults` to it. -/
def Looks (state state' : ParseState) (names : List (Str × Nat)) : Prop :=
  state'.Held ∧ ∀ x, x ≠ str "defaults" → (state'.collection.Has x ↔ state.collection.Has x ∨ x ∈ names.map Prod.fst)

theorem Looks.same (held : state.Held) (current : state'.curIface = state.curIface)
    (collection : state'.collection = state.collection) : Looks state state' [] := by
  unfold Looks ParseState.Held
  rw [current, collection]
  exact ⟨held, fun x _ => by simp⟩

theorem Looks.change {names : List (Str × Nat)} (looks : Looks state state' names) (current : state'.curIface = some ifname)
    (step : Change) : Looks state (state'.change host ifname step) names := by
  obtain ⟨held, has⟩ := looks
  have here : state'.collection.Has ifname := held ifname current
  exact ⟨fun y member => (change_had here).mpr (held y member), fun x other => (change_had here).trans (has x other)⟩

theorem Looks.find (last : Nat) : Looks state { state.find ifname with curIface := some ifname } [(ifname, last)] := by
  constructor
  · rintro y ⟨⟩
    exact find_has.mpr (Or.inr rfl)
  · intro x _
    simp [ParseState.find, find_has]

theorem finalize_has (held : state.Held) :
    (state.finalize host).Held ∧ ∀ x, (state.finalize host).collection.Has x ↔ state.collection.Has x := by
  unfold ParseState.finalize
  split
  · exact ⟨held, fun x => Iff.rfl⟩
  · rename_i current
    exact ⟨fun y member => (change_had (held _ current)).mpr (held y member), fun x => change_had (held _ current)⟩

theorem enterIface_has {calls : List (Str × Nat)} (last : Nat) (held : state.Held)
    (h : enterIface host token ifname (calls.map Prod.fst) state = some state') :
    Looks state state' (if ifname = [] then [] else (ifname, last) :: hintTargets calls) := by
  unfold enterIface at h
  split at h
  · rename_i none
    cases h
    rw [if_pos none]
    exact .same held rfl rfl
  rename_i some_
  rw [if_neg some_]
  obtain ⟨hinted, takes, left⟩ := Option.bind_eq_some_iff.mp h
  have entered (x : Str) : ((state.finalize host).find ifname).collection.Has x ↔ state.collection.Has x ∨ x = ifname :=
    find_has.trans (or_congr_left ((finalize_has held).2 x))
  have here := (entered ifname).mpr (Or.inr rfl)
  have marked : ∃ marked : ParseState, takeHints host ifname (calls.map Prod.fst) marked = some hinted ∧
      marked.curIface = some ifname ∧ ∀ x, marked.collection.Has x ↔ state.collection.Has x ∨ x = ifname := by
    split at takes
    · exact ⟨_, takes, rfl, fun x => (change_had here).trans (entered x)⟩
    · exact ⟨_, takes, rfl, entered⟩
  obtain ⟨marked, takes, current, names⟩ := marked
  obtain ⟨current, has⟩ := takeHints_has takes current ((names _).mpr (Or.inr rfl))
  have kept : hinted.collection.Has ifname := (has _).mpr (Or.inl ((names _).mpr (Or.inr rfl)))
  have closed : state'.curIface = some ifname ∧
      ∀ x, state'.collection.Has x ↔ hinted.collection.Has x ∨ x = str "defaults" ∧ state'.collection.Has x := by
    dsimp only at left
    split at left
    · obtain ⟨inherited, step, rfl⟩ := Option.map_eq_some_iff.mp left
      have found (y : Str) : (hinted.find (str "defaults")).collection.Has y ↔ hinted.collection.Has y ∨ y = str "defaults" :=
        find_has
      refine ⟨current, fun x => ?_⟩
      have inherited := inherit_had (x := x) step ((found _).mpr (Or.inl kept)) ((found _).mpr (Or.inr rfl))
      dsimp only
      rw [inherited, found]
      tauto
    · cases left
      exact ⟨current, fun x => by tauto⟩
  constructor
  · intro y member
    rw [← Option.some_inj.mp (closed.1.symm.trans member)]
    exact (closed.2 ifname).mpr (Or.inl kept)
  · intro x other
    rw [closed.2, has, names]
    simp [other, or_assoc]

theorem handleGeneric_has (bufp : Nat) (looks : Looks state state' []) : Looks state (handleGeneric host state' token bufp) [] := by
  unfold handleGeneric
  split
  · exact looks
  rename_i ifname current
  have added := @Looks.change host _ _ _ _ looks current
  dsimp only
  split
  · exact added _
  split
  · exact (added _).change current _
  · exact added _

/-- The keyword of a line is its first token, the names behind it are the calls. -/
theorem handleAuto_has (held : state.Held) (some_ : (state.nextToken 0).1 ≠ []) :
    Looks state (handleAuto host (state.nextToken 0).2.2 (state.nextToken 0).2.1)
      (state.calls.head?.toList.filter fun name => name.1 ≠ [] ∨ state.curIface ≠ none) := by
  obtain ⟨last, later, calls⟩ := calls_argument some_
  unfold handleAuto
  dsimp only
  rw [calls, List.head?_cons, Option.toList_some]
  split
  · rename_i nameless
    have none : state.argument = [] ∧ state.curIface = none := nameless
    rw [List.filter_cons_of_neg (by simp [none])]
    exact .same held rfl rfl
  · rename_i named
    have some_ : state.argument ≠ [] ∨ state.curIface ≠ none := not_and_or.mp named
    rw [List.filter_cons_of_pos (by simpa using some_)]
    exact (Looks.find last).change rfl _

theorem handleInherit_has (held : state.Held) (some_ : (state.nextToken 0).1 ≠ [])
    (h : handleInherit host (state.nextToken 0).2.2 token (state.nextToken 0).2.1 = some state') :
    Looks state state' (state.calls.head?.toList.filter fun name => name.1 ≠ [] ∧ state.curIface ≠ none) := by
  obtain ⟨last, later, calls⟩ := calls_argument some_
  rw [handleInherit_target] at h
  obtain ⟨target, found, rfl⟩ := Option.map_eq_some_iff.mp h
  rw [calls, List.head?_cons, Option.toList_some]
  cases current : state.curIface with
  | none =>
    have outside : (state.nextToken 0).2.2.curIface = none := current
    unfold inheritTarget at found
    rw [outside] at found
    cases found
    rw [List.filter_cons_of_neg (by simp)]
    exact .same held rfl rfl
  | some ifname =>
    obtain ⟨kept, has⟩ := inheritTarget_has found current (held ifname current)
    constructor
    · intro y member
      rw [← Option.some_inj.mp (kept.symm.trans member)]
      exact (has ifname).mpr (Or.inl (held ifname current))
    · intro x _
      refine (has x).trans (or_congr_right ?_)
      have same : (((state.nextToken 0).2.2.nextToken (state.nextToken 0).2.1).1 : Str) = state.argument := rfl
      rw [same]
      by_cases none : state.argument = [] <;> simp [none]

theorem handleIface_has (held : state.Held) (some_ : (state.nextToken 0).1 ≠ [])
    (h : handleIface host (state.nextToken 0).2.2 (state.nextToken 0).1 (state.nextToken 0).2.1 = some state') :
    Looks state state'
      (if (state.nextToken 0).1 = str "defaults" then hintTargets state.calls
      else
        match state.calls with
        | [] => []
        | name :: hints => if name.1 = [] then [] else name :: hintTargets hints) := by
  have enters := (congrArg (Option.map ParseState.clear) h).symm.trans handleIface_enters
  rw [tokensFrom_calls some_] at enters
  by_cases defaults : (state.nextToken 0).1 = str "defaults"
  · rw [ifaceTokens, if_pos defaults] at enters
    have looks := @enterIface_has host (state.nextToken 0).2.2.clear state'.clear _ _ state.calls 0 held enters.symm
    have word : str "defaults" ≠ [] := by decide
    rw [if_neg word] at looks
    rw [if_pos defaults]
    refine ⟨looks.1, fun x other => (looks.2 x other).trans (or_congr_right ?_)⟩
    simp [other]
  · obtain ⟨last, later, calls⟩ := calls_argument some_
    rw [ifaceTokens, if_neg defaults, calls] at enters
    rw [if_neg defaults, calls]
    exact @enterIface_has host (state.nextToken 0).2.2.clear state'.clear _ _ later last held enters.symm

theorem handleLine_has {ok : Bool} (h : handleLine host skip state = some (ok, state')) (held : state.Held) :
    Looks state state' state.lookups := by
  have read : Looks state (state.nextToken 0).2.2 [] := .same held rfl rfl
  have read' : Looks state ((state.nextToken 0).2.2.nextToken (state.nextToken 0).2.1).2.2 [] := .same held rfl rfl
  unfold ParseState.lookups
  cases kind : state.kind with
  | blank =>
    rw [handleLine_blank kind] at h
    cases h
    exact read
  | generic =>
    rw [handleLine_generic kind] at h
    cases h
    exact handleGeneric_has _ read
  | keyword parserkw =>
    rw [handleLine_keyword kind] at h
    have some_ : (state.nextToken 0).1 ≠ [] := kind_token (by rw [kind]; simp)
    cases parserkw with
    | address =>
      cases h
      unfold handleAddress
      dsimp only
      split
      · exact read'
      · exact read'.change (by assumption) _
    | gateway =>
      cases h
      unfold handleGateway
      dsimp only
      split
      · exact read'
      · exact (read'.change (by assumption) _).change (by assumption) _
    | hostname =>
      cases h
      unfold handleHostname
      dsimp only
      split
      · exact read'
      · exact (read'.change (by assumption) _).change (by assumption) _
    | use =>
      cases h
      unfold handleUse
      dsimp only
      split
      · exact read'
      · exact read'.change (by assumption) _
    | auto =>
      cases h
      exact handleAuto_has held some_
    | source =>
      have alike := handleSource_same h
      exact .same held alike.curIface alike.collection
    | sourceDirectory =>
      have alike := handleSourceDirectory_same h
      exact .same held alike.curIface alike.collection
    | inherit =>
      obtain ⟨own, inherits, same⟩ := Option.map_eq_some_iff.mp h
      cases same
      exact handleInherit_has held some_ inherits
    | iface =>
      obtain ⟨own, entered, same⟩ := Option.map_eq_some_iff.mp h
      cases same
      exact handleIface_has held some_ entered

end

end Ifupdown
