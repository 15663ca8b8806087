import Ifupdown.Parser.Handling
import Ifupdown.Parser.Walks

/-! The keys of the variables that the parser makes. -/
namespace Ifupdown

def IsKey (key : Str) : Prop := key.head?.any isAlpha = true ∧ ∀ c ∈ key, isSpace c = false

instance : DecidablePred IsKey := fun key => @instDecidableAnd _ _ _ (List.decidableBAll (fun c => isSpace c = false) key)

/-- The key is one, and the data is an address just if it stands under `address`. -/
def KeyedEntry (entry : Str × VarData) : Prop := IsKey entry.1 ∧ (entry.2.address?.isSome ↔ entry.1 = str "address")

instance : DecidablePred KeyedEntry := fun _ => inferInstanceAs (Decidable (_ ∧ _))

def LifInterface.Keyed (iface : LifInterface) : Prop := ∀ entry ∈ iface.vars, KeyedEntry entry

def Edit.Keyed : Edit → Prop
  | .change _ (.triple key _) => IsKey key
  | _ => True

theorem keyed_text {key : Str} (word : IsKey key) (other : key ≠ str "address") (value : Str) : KeyedEntry (key, .text value) :=
  ⟨word, fun some_ => Bool.noConfusion some_, fun same => absurd same other⟩

section
variable {iface : LifInterface} {vars : LifDict VarData} {entry : Str × VarData}

theorem keyed_add {key : Str} {data : VarData} (keyed : ∀ entry ∈ vars, KeyedEntry entry) (new : KeyedEntry (key, data)) :
    ∀ entry ∈ lifDictAdd vars key data, KeyedEntry entry := by
  intro entry member
  rcases List.mem_append.mp member with old | last
  · exact keyed entry old
  · rw [List.mem_singleton.mp last]
    exact new

theorem useExecutor_keyed (hostname : Option Str) (executor : Str) (keyed : iface.Keyed) :
    (lifInterfaceUseExecutor hostname iface executor).Keyed := by
  have used : ∀ entry ∈ lifDictAddOnce iface.vars (str "use") (.text executor), KeyedEntry entry := by
    intro entry member
    rcases mem_lifDictAddOnce.mp member with old | rfl
    · exact keyed entry old
    · exact keyed_text (by decide) (by decide) executor
  unfold lifInterfaceUseExecutor
  dsimp only
  split
  · split
    · exact keyed_add used (keyed_text (by decide) (by decide) _)
    · exact used
  · exact used

theorem init_keyed (ifname : Str) : (lifInterfaceInit ifname).Keyed := by
  have none : LifInterface.Keyed { ifname := ifname } := List.forall_mem_nil _
  unfold lifInterfaceInit
  dsimp only
  split
  · exact useExecutor_keyed _ _ (useExecutor_keyed _ _ none)
  · exact useExecutor_keyed _ _ none

theorem finalize_keyed (inetPton : InetPton) (keyed : iface.Keyed) : (lifInterfaceFinalize inetPton iface).Keyed := by
  intro entry member
  obtain ⟨old, inside, rfl⟩ := List.mem_map.mp (lifDictDelete_sublist.subset member)
  obtain ⟨word, address⟩ := keyed old inside
  split
  · refine ⟨word, ?_⟩
    rw [← address]
    dsimp only
    unfold finalizeAddress
    split
    · rename_i data
      rw [data]
      split <;> exact Iff.rfl
    · rename_i data
      rw [data]
  · exact ⟨word, address⟩

theorem addressAdd_keyed (inetPton : InetPton) (address : Str) (keyed : iface.Keyed) :
    (lifInterfaceAddressAdd inetPton iface address).Keyed := by
  unfold lifInterfaceAddressAdd
  split
  · exact keyed
  · have word : IsKey (str "address") := by decide
    exact keyed_add (useExecutor_keyed _ _ keyed) ⟨word, fun _ => rfl, fun _ => rfl⟩

theorem change_keyed {host : Host} {step : Change} {ifname : Str} (made : (Edit.change ifname step).Made)
    (key : (Edit.change ifname step).Keyed) (keyed : iface.Keyed) : (step.apply host iface).Keyed := by
  cases step with
  | useExecutor executor => exact useExecutor_keyed _ _ keyed
  | addressAdd address => exact addressAdd_keyed _ _ keyed
  | triple token value =>
    refine keyed_add keyed (keyed_text key (fun same => ?_) value)
    rw [same] at made
    exact made (by decide)
  | dictAdd token value =>
    refine keyed_add keyed ?_
    rcases made with rfl | rfl
    · exact keyed_text (by decide) (by decide) value
    · exact keyed_text (by decide) (by decide) value
  | dictDelete token => exact fun entry member => keyed entry (lifDictDelete_sublist.subset member)
  | finalize => exact finalize_keyed _ keyed
  | markAuto | markTemplate | noDefaults | configError => exact keyed

end

theorem edit_keyed {host : Host} {edit : Edit} {collection collection' : Collection} (made : edit.Made) (key : edit.Keyed)
    (h : edit.apply host collection = some collection') (keyed : ∀ x, (collection.iface x).Keyed) :
    ∀ x, (collection'.iface x).Keyed := by
  intro x
  cases edit with
  | find ifname =>
    cases h
    rw [iface_collectionFind]
    exact keyed x
  | change ifname step =>
    cases h
    rw [iface_write]
    split
    · exact change_keyed made key (keyed x)
    · exact keyed x
  | inherit ifname parent =>
    obtain ⟨vars, mem, after⟩ := inherit_iface h
    by_cases own : ifname = x
    · subst own
      intro entry member
      have copied : entry ∈ vars := by
        rw [after ifname] at member
        simpa using member
      rcases (mem entry).mp copied with old | rfl | inherited
      · exact keyed ifname entry old
      · exact keyed_text (by decide) (by decide) parent
      · exact keyed parent entry inherited
    · unfold LifInterface.Keyed
      rw [inherit_others h own]
      exact keyed x

theorem collectionInit_keyed (x : Str) : (lifInterfaceCollectionInit.iface x).Keyed := by
  rw [lifInterfaceCollectionInit, iface_write]
  split
  · exact useExecutor_keyed _ _ (init_keyed x)
  · exact init_keyed x

section
variable {host : Host} {state state' : ParseState} {token : Str}

theorem maybeRemapToken_key (word : IsKey token) : IsKey (maybeRemapToken token) := by
  have alternatives : ∀ entry ∈ tokens, IsKey (strlcpy 4096 entry.2) := by decide +kernel
  unfold maybeRemapToken
  split
  · rename_i found
    exact alternatives _ (bsearch_found found).1
  · obtain ⟨alpha, solid⟩ := word
    refine ⟨?_, fun c member => solid c (List.mem_of_mem_take member)⟩
    rw [strlcpy, List.head?_take, if_neg (by decide)]
    exact alpha

theorem handleGeneric_keyed {bufp : Nat} (unknown : bsearch (fun entry => strcmp token entry.1) keywords = none) (word : IsKey token) :
    Grown host (fun edit => edit.Made ∧ edit.Keyed) state (handleGeneric host state token bufp) := by
  have none : Grown host (fun edit => edit.Made ∧ edit.Keyed) state state := .same rfl rfl
  unfold handleGeneric
  split
  · exact none
  · rename_i ifname _
    have added := none.change ifname (.triple (maybeRemapToken token) (strAt state.linebuf
      (bufp + ((state.linebuf.drop bufp).takeWhile isSpace).length))) ⟨maybeRemapToken_fresh unknown, maybeRemapToken_key word⟩
    dsimp only
    split
    · exact added
    split
    · exact added.change _ (.useExecutor _) ⟨trivial, trivial⟩
    · exact added

theorem generic_key (kind : state.kind = .generic) : IsKey (state.nextToken 0).1 := by
  constructor
  · unfold ParseState.kind lineKind at kind
    split at kind
    · cases kind
    · rename_i alpha
      simpa using alpha
  · rw [nextToken_token]
    exact fun c member => (nextWord_solid _ c member).2

theorem handleLine_keyed {ok : Bool} (h : handleLine host skip state = some (ok, state')) :
    Grown host (fun edit => edit.Made ∧ edit.Keyed) state state' := by
  cases kind : state.kind with
  | blank =>
    rw [handleLine_blank kind] at h
    cases h
    exact .same rfl rfl
  | generic =>
    rw [handleLine_generic kind] at h
    cases h
    exact handleGeneric_keyed (generic_unknown kind) (generic_key kind)
  | keyword parserkw =>
    refine (handleLine_grown h).mono fun edit makes => ⟨makes.made, ?_⟩
    rw [kind] at makes
    cases edit with
    | change ifname step =>
      cases step with
      | triple key value => cases parserkw <;> simp [LineKind.Makes] at makes
      | _ => trivial
    | _ => trivial

/-- What is true of the edits of each line is true of all edits of a run. -/
theorem Run.grown {P : Edit → Prop} {lines : List Visit} (run : Run host state lines state')
    (line : ∀ {state state' : ParseState} {ok : Bool}, handleLine host skip state = some (ok, state') → Grown host P state state')
    (finalize : ∀ ifname, P (.change ifname .finalize)) : Grown host P state state' := by
  have settled {state state' : ParseState} (quiet : Quiet host state state') : Grown host P state state' := by
    refine quiet.grown.mono fun edit made => ?_
    obtain ⟨ifname, rfl⟩ := made
    exact finalize ifname
  induction run with
  | done quiet => exact settled quiet
  | line quiet handled _ ih => exact ((settled quiet).trans (line handled)).trans ih

theorem Grown.keeps {P : Edit → Prop} {inv : Collection → Prop} (grown : Grown host P state state')
    (step : ∀ {edit : Edit} {collection collection' : Collection}, P edit → edit.apply host collection = some collection' →
      inv collection → inv collection') (start : inv state.collection) : inv state'.collection := by
  obtain ⟨made, -, reached, sort⟩ := grown
  generalize state.collection = collection at reached start
  induction made generalizing collection with
  | nil =>
    cases reached
    exact start
  | cons edit rest ih =>
    obtain ⟨first, later⟩ := List.forall_mem_cons.mp sort
    rw [applyEdits_cons] at reached
    obtain ⟨next, here, reached⟩ := Option.bind_eq_some_iff.mp reached
    exact ih later next reached (step first here start)

end

theorem parsed_keyed {host : Host} {fuel : Nat} {filename : Str} {ok : Bool} {state : ParseState}
    (parsed : lifInterfaceFileParse host fuel {} filename = some (ok, state)) : ∀ x, (state.collection.iface x).Keyed := by
  have grown := (parse_run parsed).grown handleLine_keyed fun _ => ⟨trivial, trivial⟩
  exact @Grown.keeps host _ _ _ (fun collection => ∀ x, (collection.iface x).Keyed) grown
    (fun legal here => edit_keyed legal.1 legal.2 here) collectionInit_keyed

end Ifupdown
