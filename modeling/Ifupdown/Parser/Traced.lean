import Ifupdown.Parser.Visits

/-! The parser changes the collection by edits alone. -/
namespace Ifupdown

variable {host : Host} {state state' : ParseState} {ifname token filename : Str} {bufp : Nat}

/-- What the handlers say of the keys they write to: those of `handle_generic` are no keywords. -/
def Edit.Made : Edit → Prop
  | .change _ (.triple key _) => key ∉ keywords.map Prod.fst
  | .change _ (.dictAdd key _) => key = str "gateway" ∨ key = str "dhcp-hostname"
  | .change _ (.dictDelete key) => key = str "dhcp-hostname"
  | _ => True

def applyEdits (host : Host) (collection : Collection) (edits : List Edit) : Option Collection :=
  edits.foldlM (Edit.apply host) collection

theorem applyEdits_snoc {collection : Collection} {edits : List Edit} {edit : Edit} :
    applyEdits host collection (edits ++ [edit]) =
      (applyEdits host collection edits).bind fun collection => edit.apply host collection := by
  unfold applyEdits
  rw [List.foldlM_append]
  cases List.foldlM (Edit.apply host) collection edits <;> simp

theorem applyEdits_cons {collection : Collection} {edits : List Edit} {edit : Edit} :
    applyEdits host collection (edit :: edits) =
      (edit.apply host collection).bind fun collection => applyEdits host collection edits := by
  rw [applyEdits, List.foldlM_cons]
  rfl

theorem applyEdits_append {collection : Collection} {first second : List Edit} :
    applyEdits host collection (first ++ second) =
      (applyEdits host collection first).bind fun collection => applyEdits host collection second := by
  rw [applyEdits, List.foldlM_append]
  rfl

theorem applyEdits_invariant {inv : Collection → Prop} {collection collection' : Collection} {edits : List Edit}
    (made : ∀ edit ∈ edits, edit.Made) (h : applyEdits host collection edits = some collection') (start : inv collection)
    (step : ∀ edit collection collection', Edit.Made edit → edit.apply host collection = some collection' →
      inv collection → inv collection') : inv collection' := by
  induction edits generalizing collection with
  | nil =>
    cases h
    exact start
  | cons edit rest ih =>
    obtain ⟨first, later⟩ := List.forall_mem_cons.mp made
    rw [applyEdits_cons] at h
    obtain ⟨next, here, h⟩ := Option.bind_eq_some_iff.mp h
    exact ih later h (step edit collection next first here start)

/-- The edits lead from `start` to the collection. -/
structure Traced (host : Host) (start collection : Collection) (edits : List Edit) : Prop where
  reached : applyEdits host start edits = some collection
  made : ∀ edit ∈ edits, edit.Made

abbrev ParseState.Traced (host : Host) (start : Collection) (state : ParseState) : Prop :=
  Ifupdown.Traced host start state.collection state.edits

variable {start : Collection}

theorem traced_start : ParseState.Traced host lifInterfaceCollectionInit {} := ⟨rfl, by simp⟩

/-- The edits that the lines of each kind make. -/
def LineKind.Makes : LineKind → Edit → Prop
  | .keyword .address, .change _ (.addressAdd _) => True
  | .keyword .auto, .find _ => True
  | .keyword .auto, .change _ .markAuto => True
  | .keyword .iface, .find _ => True
  | .keyword .iface, .inherit _ _ => True
  | .keyword .iface, .change _ step =>
    step = .finalize ∨ step = .markTemplate ∨ step = .noDefaults ∨ step = .configError ∨
      ∃ executor, step = .useExecutor executor
  | .keyword .hostname, .change _ (.dictDelete key) => key = str "dhcp-hostname"
  | .keyword .hostname, .change _ (.dictAdd key _) => key = str "dhcp-hostname"
  | .keyword .gateway, .change _ (.useExecutor _) => True
  | .keyword .gateway, .change _ (.dictAdd key _) => key = str "gateway"
  | .keyword .inherit, .find _ => True
  | .keyword .inherit, .inherit _ _ => True
  | .keyword .inherit, .change _ .configError => True
  | .keyword .use, .change _ (.useExecutor _) => True
  | .generic, .change _ (.triple key _) => key ∉ keywords.map Prod.fst
  | .generic, .change _ (.useExecutor _) => True
  | _, _ => False

theorem LineKind.Makes.made {kind : LineKind} {edit : Edit} (makes : kind.Makes edit) : edit.Made := by
  unfold LineKind.Makes at makes
  split at makes
  case h_6 =>
    rcases makes with rfl | rfl | rfl | rfl | ⟨executor, rfl⟩ <;> trivial
  all_goals first
    | trivial
    | exact Or.inl makes
    | exact Or.inr makes

/-- Edits of this sort lead from one state to the other. -/
def Grown (host : Host) (P : Edit → Prop) (state state' : ParseState) : Prop :=
  ∃ made : List Edit, state'.edits = state.edits ++ made ∧
    applyEdits host state.collection made = some state'.collection ∧ ∀ edit ∈ made, P edit

section
variable {P : Edit → Prop} {start : ParseState}

theorem Grown.same (collection : state'.collection = state.collection) (edits : state'.edits = state.edits) :
    Grown host P state state' := by
  refine ⟨[], ?_, ?_, by simp⟩
  · rw [edits, List.append_nil]
  · rw [collection]
    rfl

theorem Grown.trans (first : Grown host P start state) (second : Grown host P state state') : Grown host P start state' := by
  obtain ⟨made, edits, reached, sort⟩ := first
  obtain ⟨more, edits', reached', sort'⟩ := second
  refine ⟨made ++ more, ?_, ?_, ?_⟩
  · rw [edits', edits, List.append_assoc]
  · rw [applyEdits_append, reached]
    exact reached'
  · intro edit member
    exact (List.mem_append.mp member).elim (sort edit) (sort' edit)

theorem Grown.mono {Q : Edit → Prop} (grown : Grown host P start state) (legal : ∀ edit, P edit → Q edit) :
    Grown host Q start state := by
  obtain ⟨made, edits, reached, sort⟩ := grown
  exact ⟨made, edits, reached, fun edit member => legal edit (sort edit member)⟩

theorem Grown.edit (grown : Grown host P start state) (edit : Edit) {collection : Collection} (legal : P edit)
    (step : edit.apply host state.collection = some collection) :
    Grown host P start { state with collection := collection, edits := state.edits ++ [edit] } := by
  obtain ⟨made, edits, reached, sort⟩ := grown
  refine ⟨made ++ [edit], ?_, ?_, ?_⟩
  · rw [edits, List.append_assoc]
  · rw [applyEdits_snoc, reached]
    exact step
  · intro e member
    rcases List.mem_append.mp member with old | new
    · exact sort e old
    · rw [List.mem_singleton.mp new]
      exact legal

theorem Grown.find (grown : Grown host P start state) (ifname : Str) (legal : P (.find ifname) := by exact trivial) :
    Grown host P start (state.find ifname) :=
  grown.edit (.find ifname) legal rfl

theorem Grown.change (grown : Grown host P start state) (ifname : Str) (step : Change)
    (legal : P (.change ifname step) := by exact trivial) : Grown host P start (state.change host ifname step) :=
  grown.edit (.change ifname step) legal rfl

theorem Grown.inherit (grown : Grown host P start state) {ifname parent : Str} (h : state.inherit host ifname parent = some state')
    (legal : P (.inherit ifname parent) := by exact trivial) : Grown host P start state' := by
  obtain ⟨collection, step, rfl⟩ := Option.map_eq_some_iff.mp h
  exact grown.edit (.inherit ifname parent) legal step

theorem Grown.finalize (grown : Grown host P start state) (legal : ∀ ifname, P (.change ifname .finalize)) :
    Grown host P start (state.finalize host) := by
  unfold ParseState.finalize
  split
  · exact grown
  · exact grown.change _ .finalize (legal _)

end

theorem handleAddress_grown : Grown host (LineKind.keyword .address).Makes state (handleAddress host state token bufp) := by
  have read : Grown host (LineKind.keyword .address).Makes state (state.nextToken bufp).2.2 := .same rfl rfl
  unfold handleAddress
  dsimp only
  split
  · exact read
  · exact read.change _ _

theorem handleAuto_grown : Grown host (LineKind.keyword .auto).Makes state (handleAuto host state bufp) := by
  have read : Grown host (LineKind.keyword .auto).Makes state (state.nextToken bufp).2.2 := .same rfl rfl
  unfold handleAuto
  dsimp only
  split
  · exact read
  · have found : Grown host (LineKind.keyword .auto).Makes state
        { (state.nextToken bufp).2.2.find _ with curIface := _ } := read.find (state.nextToken bufp).1
    exact found.change _ .markAuto

theorem handleGateway_grown :
    Grown host (LineKind.keyword .gateway).Makes state (handleGateway host state (str "gateway") bufp) := by
  have read : Grown host (LineKind.keyword .gateway).Makes state (state.nextToken bufp).2.2 := .same rfl rfl
  unfold handleGateway
  dsimp only
  split
  · exact read
  · exact (read.change _ (.useExecutor _)).change _ (.dictAdd _ _) rfl

theorem handleHostname_grown : Grown host (LineKind.keyword .hostname).Makes state (handleHostname host state token bufp) := by
  have read : Grown host (LineKind.keyword .hostname).Makes state (state.nextToken bufp).2.2 := .same rfl rfl
  unfold handleHostname
  dsimp only
  split
  · exact read
  · exact (read.change _ (.dictDelete _) rfl).change _ (.dictAdd _ _) rfl

theorem handleUse_grown : Grown host (LineKind.keyword .use).Makes state (handleUse host state token bufp) := by
  have read : Grown host (LineKind.keyword .use).Makes state (state.nextToken bufp).2.2 := .same rfl rfl
  unfold handleUse
  dsimp only
  split
  · exact read
  · exact read.change _ _

/-- The alternative of a token is no keyword, unless the token is one. -/
theorem maybeRemapToken_fresh (unknown : bsearch (fun entry => strcmp token entry.1) keywords = none) :
    maybeRemapToken token ∉ keywords.map Prod.fst := by
  have names : ∀ name ∈ keywords.map Prod.fst,
      name.length < 4095 ∧ (bsearch (fun entry => strcmp name entry.1) keywords).isSome := by decide +kernel
  have alternatives : ∀ entry ∈ tokens, strlcpy 4096 entry.2 ∈ keywords.map Prod.fst →
      (bsearch (fun keyword => strcmp entry.1 keyword.1) keywords).isSome := by decide +kernel
  intro member
  have known : (bsearch (fun entry => strcmp token entry.1) keywords).isSome := by
    unfold maybeRemapToken at member
    split at member
    · rename_i found
      obtain ⟨listed, same⟩ := bsearch_found found
      rw [strcmp_eq.mp same]
      exact alternatives _ listed member
    · obtain ⟨short, known⟩ := names _ member
      have whole : strlcpy 4096 token = token := by
        apply List.take_of_length_le
        rw [strlcpy, List.length_take] at short
        omega
      rwa [whole] at known
  rw [unknown] at known
  cases known

theorem handleGeneric_grown (unknown : bsearch (fun entry => strcmp token entry.1) keywords = none) :
    Grown host LineKind.generic.Makes state (handleGeneric host state token bufp) := by
  have none : Grown host LineKind.generic.Makes state state := .same rfl rfl
  unfold handleGeneric
  split
  · exact none
  · rename_i ifname _
    have added := none.change ifname (.triple (maybeRemapToken token) (strAt state.linebuf
      (bufp + ((state.linebuf.drop bufp).takeWhile isSpace).length))) (maybeRemapToken_fresh unknown)
    dsimp only
    split
    · exact added
    split
    · exact added.change _ (.useExecutor _)
    · exact added

theorem handleInherit_grown {P : Edit → Prop} {start : ParseState} (grown : Grown host P start state)
    (legal : ∀ edit, (LineKind.keyword .inherit).Makes edit → P edit)
    (h : handleInherit host state token bufp = some state') : Grown host P start state' := by
  have read : Grown host P start (state.nextToken bufp).2.2 := grown
  have reported {state : ParseState} (grown : Grown host P start state) (err : Str) :
      Grown host P start (reportError state err) := grown
  unfold handleInherit at h
  dsimp only at h
  split at h
  · cases h
    exact read
  split at h
  · cases h
    exact (reported read _).change _ .configError (legal _ trivial)
  have found := read.find (state.nextToken bufp).1 (legal _ trivial)
  split at h
  · cases h
    exact (reported found _).change _ .configError (legal _ trivial)
  · exact found.inherit h (legal _ trivial)

section
variable {start : ParseState}

theorem hintLoop_grown {fuel : Nat} (grown : Grown host (LineKind.keyword .iface).Makes start state)
    (h : hintLoop host ifname fuel state bufp = some state') : Grown host (LineKind.keyword .iface).Makes start state' := by
  induction fuel generalizing state bufp with
  | zero => cases h
  | succ fuel ih =>
    have read : Grown host (LineKind.keyword .iface).Makes start (state.nextToken bufp).2.2 := grown
    unfold hintLoop at h
    dsimp only at h
    split at h
    · cases h
      exact read
    split at h
    · exact ih (read.change _ _ (by simp [LineKind.Makes])) h
    split at h
    · split at h
      · cases h
      · rename_i inherited
        refine ih (handleInherit_grown read (fun edit makes => ?_) inherited) h
        cases edit with
        | change ifname step =>
          cases step with
          | configError => simp [LineKind.Makes]
          | _ => cases makes
        | _ => trivial
    split at h
    · exact ih (read.change _ _ (by simp [LineKind.Makes])) h
    · exact ih read h

theorem handleIface_grown (h : handleIface host state token bufp = some state') :
    Grown host (LineKind.keyword .iface).Makes state state' := by
  unfold handleIface at h
  have read : Grown host (LineKind.keyword .iface).Makes state (if token = str "defaults" then (str "defaults", bufp, state)
      else state.nextToken bufp).2.2 := by
    split <;> exact .same rfl rfl
  revert h read
  generalize (if token = str "defaults" then (str "defaults", bufp, state) else state.nextToken bufp) = name
  obtain ⟨ifname, bufp, named⟩ := name
  intro h read
  dsimp only at h read
  split at h
  · cases h
    exact read
  have found : Grown host (LineKind.keyword .iface).Makes state { (named.finalize host).find ifname with curIface := some ifname } :=
    (read.finalize fun _ => Or.inl rfl).find ifname
  revert h found
  generalize ({ (named.finalize host).find ifname with curIface := some ifname } : ParseState) = entered
  intro h found
  have marked : Grown host (LineKind.keyword .iface).Makes state (if token = str "template" ∨ token = str "defaults" then
      entered.change host ifname .markTemplate else entered) := by
    split
    · exact found.change _ .markTemplate (Or.inr (Or.inl rfl))
    · exact found
  split at h
  · cases h
  rename_i hinted
  have hinted := hintLoop_grown marked hinted
  split at h
  · exact (hinted.find _).inherit h
  · cases h
    exact hinted

end

theorem handleSource_same {ok : Bool} (h : handleSource host skip state bufp = some (ok, state')) : Same state state' := by
  unfold handleSource at h
  dsimp only at h
  split at h
  · cases h
    exact ⟨rfl, rfl, rfl⟩
  split at h
  · cases h
    exact ⟨rfl, rfl, rfl⟩
  · cases h
    exact ⟨rfl, rfl, rfl⟩
  split at h
  · rw [sourceLoop_include, includeLoop_skip] at h
    cases h
    exact ⟨rfl, rfl, rfl⟩
  · cases h
    exact ⟨rfl, rfl, rfl⟩

theorem handleSourceDirectory_same {ok : Bool} (h : handleSourceDirectory host skip state bufp = some (ok, state')) :
    Same state state' := by
  unfold handleSourceDirectory at h
  dsimp only at h
  split at h
  · cases h
    exact ⟨rfl, rfl, rfl⟩
  split at h
  · cases h
    exact ⟨rfl, rfl, rfl⟩
  · rw [directoryLoop_include, includeLoop_skip] at h
    cases h
    exact ⟨rfl, rfl, rfl⟩

/-- What a line does for itself, it does by edits of its kind. -/
theorem handleLine_grown {ok : Bool} (h : handleLine host skip state = some (ok, state')) :
    Grown host state.kind.Makes state state' := by
  have read : ∀ {P : Edit → Prop} {last : ParseState}, Grown host P (state.nextToken 0).2.2 last → Grown host P state last :=
    fun grown => grown
  cases kind : state.kind with
  | blank =>
    rw [handleLine_blank kind] at h
    cases h
    exact .same rfl rfl
  | generic =>
    rw [handleLine_generic kind] at h
    cases h
    exact read (handleGeneric_grown (generic_unknown kind))
  | keyword parserkw =>
    rw [handleLine_keyword kind] at h
    cases parserkw with
    | address =>
      cases h
      exact read handleAddress_grown
    | auto =>
      cases h
      exact read handleAuto_grown
    | iface =>
      obtain ⟨last, result, keep⟩ := Option.map_eq_some_iff.mp h
      cases keep
      exact read (handleIface_grown result)
    | hostname =>
      cases h
      exact read handleHostname_grown
    | gateway =>
      cases h
      have only : ∀ entry ∈ keywords, entry.2 = .gateway → entry.1 = str "gateway" := by decide
      rw [only _ (keyword_listed kind) rfl]
      exact read handleGateway_grown
    | inherit =>
      obtain ⟨last, result, keep⟩ := Option.map_eq_some_iff.mp h
      cases keep
      exact read (handleInherit_grown (.same rfl rfl) (fun _ makes => makes) result)
    | source =>
      have same : Same (state.nextToken 0).2.2 state' := handleSource_same h
      exact read (.same same.collection same.edits)
    | sourceDirectory =>
      have same : Same (state.nextToken 0).2.2 state' := handleSourceDirectory_same h
      exact read (.same same.collection same.edits)
    | use =>
      cases h
      exact read handleUse_grown

theorem ParseState.Traced.grown {P : Edit → Prop} (traced : state.Traced host start) (grown : Grown host P state state')
    (legal : ∀ edit, P edit → edit.Made) : state'.Traced host start := by
  obtain ⟨made, edits, reached, sort⟩ := grown
  constructor
  · rw [edits, applyEdits_append, traced.reached]
    exact reached
  · intro edit member
    rw [edits] at member
    rcases List.mem_append.mp member with old | new
    · exact traced.made edit old
    · exact legal edit (sort edit new)

theorem Quiet.grown (quiet : Quiet host state state') : Grown host (fun edit => ∃ ifname, edit = .change ifname .finalize) state state' := by
  induction quiet with
  | refl => exact .same rfl rfl
  | tail _ step ih =>
    cases step with
    | same same =>
      obtain ⟨made, edits, reached, sort⟩ := ih
      exact ⟨made, same.edits.trans edits, by rw [same.collection]; exact reached, sort⟩
    | finalize => exact ih.finalize fun ifname => ⟨ifname, rfl⟩

theorem Run.traced {lines : List Visit} (run : Run host state lines state') (traced : state.Traced host start) :
    state'.Traced host start := by
  have settled {state state' : ParseState} (quiet : Quiet host state state') (traced : state.Traced host start) :
      state'.Traced host start := by
    refine traced.grown quiet.grown fun edit made => ?_
    obtain ⟨ifname, rfl⟩ := made
    trivial
  induction run with
  | done quiet => exact settled quiet traced
  | line quiet handled _ ih => exact ih ((settled quiet traced).grown (handleLine_grown handled) fun _ => LineKind.Makes.made)

theorem lifInterfaceFileParse_traced {fuel : Nat} {ok : Bool} (traced : state.Traced host start)
    (h : lifInterfaceFileParse host fuel state filename = some (ok, state')) : state'.Traced host start :=
  (parse_run h).traced traced

def oneFile (text : String) : Host where
  fopen name := if name = str "interfaces" then some (str text) else none

/-- What a command gets to know of the interfaces file. -/
def Host.read (host : Host) : ParseState :=
  match lifInterfaceFileParse host 2 {} (str "interfaces") with
  | some (_, state) => state
  | none => {}

theorem read_parsed (ok : (lifInterfaceFileParse host 2 {} (str "interfaces")).map Prod.fst = some true) :
    lifInterfaceFileParse host 2 {} (str "interfaces") = some (true, host.read) := by
  obtain ⟨⟨fine, state⟩, parsed, rfl⟩ := Option.map_eq_some_iff.mp ok
  rw [Host.read, parsed]

end Ifupdown
