import Ifupdown.Model.Ifparse
import Ifupdown.Parser.Keyed
import Ifupdown.Properties.NamedInterfaces
import Ifupdown.Resolver.Survey
import Ifupdown.Resolver.Counting

/-! The names and keys in the collections that the commands work on. -/
namespace Ifupdown

def Unspaced (s : Str) : Prop := ∀ c ∈ s, isSpace c = false

instance : DecidablePred Unspaced := List.decidableBAll fun c => isSpace c = false

/-- Names are words of some kind, and every variable has a key. -/
structure Collection.Worded (kind : Str → Prop) (collection : Collection) : Prop where
  names : ∀ name ∈ lifDictKeys collection.entries, kind name
  vars : ∀ x, (collection.iface x).Keyed

/-- What a list of words in a buffer of 4096 bytes can name. -/
def NamesTokens (kind : Str → Prop) : Prop := ∀ text, ∀ token ∈ lifTokens (strlcpy 4096 text), kind token

variable {kind : Str → Prop}

section
variable {collection : Collection} {ifname : Str}

theorem Collection.Worded.find (worded : collection.Worded kind) (word : kind ifname) :
    (lifInterfaceCollectionFind collection ifname).2.Worded kind := by
  constructor
  · intro name member
    rcases find_has.mp member with old | rfl
    · exact worded.names name old
    · exact word
  · intro x
    rw [iface_collectionFind]
    exact worded.vars x

theorem Collection.Worded.write {f : LifInterface → LifInterface} (worded : collection.Worded kind)
    (keeps : ∀ interface, (f interface).ifname = interface.ifname) (word : kind ifname) (keyed : (f (collection.iface ifname)).Keyed) :
    (collection.write ifname f keeps).Worded kind := by
  constructor
  · intro name member
    rcases write_has.mp member with old | rfl
    · exact worded.names name old
    · exact word
  · intro x
    rw [iface_write]
    split
    · rename_i same
      rw [← same]
      exact keyed
    · exact worded.vars x

end

/-- A parse makes entries for `lo`, for `defaults`, and for words of the lines. -/
theorem parsed_worded {host : Host} {fuel : Nat} {filename : Str} {ok : Bool} {state : ParseState}
    (parsed : lifInterfaceFileParse host fuel {} filename = some (ok, state)) (lo : kind (str "lo")) (defaults : kind (str "defaults"))
    (words : ∀ visit ∈ visits host fuel {} filename, ∀ call ∈ visit.state.calls, kind call.1) : state.collection.Worded kind := by
  refine ⟨fun name member => ?_, parsed_keyed parsed⟩
  have start : ParseState.Held {} := by simp [ParseState.Held]
  by_cases same : name = str "defaults"
  · rwa [same]
  rcases ((parse_run parsed).has start same).mp member with first | ⟨visit, visited, looked⟩
  · rwa [show name = str "lo" from init_has.mp first]
  · obtain ⟨lookup, looks, rfl⟩ := List.mem_map.mp looked
    obtain ⟨call, -⟩ : _ ∧ (_ → Visit.Nameless ⟨visit.line, visit.state⟩) := lookups_call looks
    exact words visit visited lookup call

section
variable {env : DependEnv} {opts : LifExecuteOpts} {s s' : Survey} {ok : Bool}

theorem keyed_write {vars : LifDict VarData} {key : Str} {f : VarData → VarData} (keyed : ∀ entry ∈ vars, KeyedEntry entry)
    (same : ∀ data, KeyedEntry (key, data) → KeyedEntry (key, f data)) : ∀ entry ∈ lifDictWrite vars key f, KeyedEntry entry := by
  induction vars with
  | nil => exact keyed
  | cons entry rest ih =>
    obtain ⟨name, data⟩ := entry
    obtain ⟨first, later⟩ := List.forall_mem_cons.mp keyed
    unfold lifDictWrite
    split
    · rename_i hit
      subst hit
      exact List.forall_mem_cons.mpr ⟨same data first, later⟩
    · exact List.forall_mem_cons.mpr ⟨first, ih later⟩

theorem query_keyed {iface : LifInterface} {asked : Nat} {answer : Nat × LifDict VarData} (keyed : iface.Keyed)
    (query : lifLifecycleQueryDependents env opts asked iface = some answer) : ∀ entry ∈ answer.2, KeyedEntry entry := by
  have requires (value : Str) : KeyedEntry (str "requires", .text value) := keyed_text (by decide) (by decide) value
  unfold lifLifecycleQueryDependents at query
  dsimp only at query
  split at query
  · cases query
  · cases query
    dsimp only
    split
    · exact keyed_write keyed fun _ _ => requires _
    split
    · exact keyed
    · exact keyed_add keyed (requires _)

theorem countTokens_worded {count : Survey → Str → Nat → Option (Bool × Survey)} {depth : Nat} {tokens : List Str}
    (counts : ∀ {s s' : Survey} {token : Str} {ok : Bool}, count s token (depth + 1) = some (ok, s') → kind token →
      s.collection.Worded kind → s'.collection.Worded kind)
    (h : countTokens count depth tokens s = some (ok, s')) (words : ∀ token ∈ tokens, kind token) (worded : s.collection.Worded kind) :
    s'.collection.Worded kind := by
  induction tokens generalizing s with
  | nil =>
    cases h
    exact worded
  | cons token rest ih =>
    obtain ⟨word, words⟩ := List.forall_mem_cons.mp words
    unfold countTokens at h
    split at h
    · cases h
    · rename_i result
      exact ih h words (counts result word (worded.find word))
    · rename_i result
      cases h
      exact counts result word (worded.find word)

theorem requireIfs_kind (tokens : NamesTokens kind) (iface : LifInterface) : ∀ token ∈ requireIfs iface, kind token := by
  intro token member
  unfold requireIfs at member
  split at member
  · cases member
  · exact tokens _ token member

theorem countInterfaceRdepends_worded (tokens : NamesTokens kind) {fuel depth : Nat} {parent : Str}
    (h : countInterfaceRdepends env opts fuel s parent depth = some (ok, s')) (word : kind parent) (worded : s.collection.Worded kind) :
    s'.collection.Worded kind := by
  induction fuel generalizing s s' parent depth ok with
  | zero => cases h
  | succ fuel ih =>
    rcases countInterfaceRdepends_cases h with ⟨-, -, rfl⟩ | ⟨-, ⟨-, -, rfl⟩ | ⟨answer, last, query, result, rfl⟩⟩
    · exact worded
    · exact worded
    · have entered : (s.enter parent depth answer).collection.Worded kind := by
        refine worded.write ?_ word ?_
        · exact fun _ => rfl
        · exact query_keyed (worded.vars parent) query
      have counted := countTokens_worded ih result (requireIfs_kind tokens _) entered
      refine counted.write ?_ word ?_
      · exact fun _ => rfl
      · exact counted.vars parent

theorem countEntries_worded (tokens : NamesTokens kind) {fuel rounds i : Nat}
    (h : countEntries env opts fuel rounds i s = some (ok, s')) (worded : s.collection.Worded kind) : s'.collection.Worded kind := by
  induction rounds generalizing i s with
  | zero => cases h
  | succ rounds ih =>
    unfold countEntries at h
    split at h
    · cases h
      exact worded
    · rename_i name iface entry
      have word : kind name := worded.names name (List.mem_map_of_mem (f := Prod.fst) (List.mem_of_getElem? entry))
      split at h
      · cases h
      · rename_i result
        exact ih h (countInterfaceRdepends_worded tokens result word worded)
      · rename_i result
        cases h
        exact countInterfaceRdepends_worded tokens result word worded

theorem Collection.Worded.reorder {collection : Collection} (worded : collection.Worded kind) : collection.reorder.Worded kind := by
  constructor
  · exact fun name member => worded.names name (mem_reorder_keys.mp member)
  · intro x
    rw [iface_reorder]
    exact worded.vars x

theorem countRdepends_worded (tokens : NamesTokens kind) {fuel : Nat} {depth : Option Nat}
    (h : lifLifecycleCountRdepends env opts fuel s = some (depth, s')) (worded : s.collection.Worded kind) :
    s'.collection.Worded kind := by
  unfold lifLifecycleCountRdepends at h
  split at h
  · cases h
  · rename_i result
    cases h
    exact countEntries_worded tokens result worded
  · rename_i result
    cases h
    exact (countEntries_worded tokens result worded).reorder

end

section
variable {config : LifConfig} {collection : Collection}

theorem pimpPort_keyed {bridge port : LifInterface} (bridgeKeyed : bridge.Keyed) (keyed : port.Keyed) :
    (pimpPort (lifDictFind bridge.vars (str "bridge-pvid")) (lifDictFind bridge.vars (str "bridge-vids")) port).Keyed := by
  have pimped {vars : LifDict VarData} (key : Str) (keyed : ∀ entry ∈ vars, KeyedEntry entry) :
      ∀ entry ∈ maybePimp key (lifDictFind bridge.vars key) vars, KeyedEntry entry := by
    unfold maybePimp
    split
    · exact keyed
    · rename_i found
      split
      · exact keyed_add keyed (bridgeKeyed _ (lifDictFind_mem found))
      · exact keyed
  exact pimped _ (pimped _ keyed)

theorem pimpBridge_worded (tokens : NamesTokens kind) {bridge : LifInterface} (bridgeKeyed : bridge.Keyed)
    (worded : collection.Worded kind) : (pimpBridge config collection bridge).Worded kind := by
  unfold pimpBridge
  dsimp only
  split
  · exact worded
  split
  · exact worded
  split
  · exact worded
  split
  · exact worded
  · rename_i entry _ _
    have words := tokens entry.value
    revert words
    generalize lifTokens (strlcpy 4096 entry.value) = tokens
    intro words
    induction tokens generalizing collection with
    | nil => exact worded
    | cons token rest ih =>
      obtain ⟨word, words⟩ := List.forall_mem_cons.mp words
      refine ih ?_ words
      unfold pimpToken
      split
      · exact worded.write (pimpPort_ifname _ _) word (pimpPort_keyed bridgeKeyed (worded.vars token))
      · exact worded

theorem compat_worded (tokens : NamesTokens kind) {fuel : Nat} {names : List Str} {result : Collection}
    (h : compatIfupdown2BridgePortsInheritVlans config fuel collection names = some result) (worded : collection.Worded kind) :
    result.Worded kind := by
  induction fuel generalizing collection names with
  | zero =>
    cases names with
    | nil =>
      cases h
      exact worded
    | cons _ _ => cases h
  | succ fuel ih =>
    cases names with
    | nil =>
      cases h
      exact worded
    | cons ifname rest => exact ih h (pimpBridge_worded tokens (worded.vars ifname) worded)

end

/-- What the words of a file are and the words of a buffer are, the names of a collection are once it has been loaded. -/
theorem ifparseLoad_worded (tokens : NamesTokens kind) {host : Host} {env : DependEnv} {opts : LifExecuteOpts} {fuel : Nat} {options : IfparseOptions}
    {interfacesFile : Str} {s : Survey} (loaded : ifparseLoad host env opts fuel options interfacesFile = some (.ok s))
    (lo : kind (str "lo")) (defaults : kind (str "defaults"))
    (words : ∀ visit ∈ visits host fuel {} interfacesFile, ∀ call ∈ visit.state.calls, kind call.1) : s.collection.Worded kind := by
  unfold ifparseLoad at loaded
  split at loaded
  · cases loaded
  · cases loaded
  rename_i state parsed
  have start : Collection.Worded kind (Survey.mk state.collection 0).collection := parsed_worded parsed lo defaults words
  dsimp only at loaded
  split at loaded
  · cases loaded
  · cases loaded
  rename_i depth counted result
  have worded : counted.collection.Worded kind := by
    split at result
    · exact countRdepends_worded tokens result start
    · cases result
      exact start
  obtain ⟨collection, applied, same⟩ := Option.map_eq_some_iff.mp loaded
  cases same
  unfold lifCompatApply at applied
  split at applied
  · exact compat_worded tokens applied worded
  · cases applied
    exact worded

theorem unspaced_word {word : Str} (plain : (word.all fun c => !isSpace c) = true) : Unspaced word := by
  intro c member
  have solid := List.all_eq_true.mp plain c member
  simpa using solid

theorem ifparseLoad_unspaced {host : Host} {env : DependEnv} {opts : LifExecuteOpts} {fuel : Nat} {options : IfparseOptions}
    {interfacesFile : Str} {s : Survey} (loaded : ifparseLoad host env opts fuel options interfacesFile = some (.ok s)) :
    s.collection.Worded Unspaced := by
  refine ifparseLoad_worded (fun text token member => (lifTokens_words _ token member).2) loaded (unspaced_word (by decide))
    (unspaced_word (by decide)) ?_
  exact fun visit _ call member c inside => (wordCalls_solid (List.mem_of_mem_tail member) c inside).2

/-- In the collection that a command works on, once the file is parsed, the dependencies are counted and the compatibility glue is
applied, no name has white space in it, every key of a variable is a word that starts with a letter, and addresses stand under
`address` and nowhere else. -/
theorem loaded_worded (host : Host) (env : DependEnv) (opts : LifExecuteOpts) (fuel : Nat) (options : IfparseOptions)
    (interfacesFile : Str) (s : Survey) (loaded : ifparseLoad host env opts fuel options interfacesFile = some (.ok s)) :
    ∀ entry ∈ s.collection.entries, (∀ c ∈ entry.1, isSpace c = false) ∧
      ∀ var ∈ entry.2.vars, var.1.head?.any isAlpha = true ∧ (∀ c ∈ var.1, isSpace c = false) ∧
        (var.2.address?.isSome ↔ var.1 = str "address") := by
  intro entry member
  obtain ⟨names, vars⟩ := ifparseLoad_unspaced loaded
  refine ⟨names entry.1 (List.mem_map_of_mem member), fun var inside => ?_⟩
  rw [← iface_of_mem member] at inside
  obtain ⟨⟨alpha, word⟩, address⟩ := vars entry.1 var inside
  exact ⟨alpha, word, address⟩

def mtuFile : Host := { oneFile "auto eth0\n  address 10.0.0.1/24\n  mtu 1400\n" with inetPton := onePton }

def unaided : DependEnv := ⟨fun _ => false, fun _ _ _ => none⟩

def yamlRaw : IfparseOptions where
  outputFmt := str "yaml-raw"

def loadedSurvey : Option (Except Str Survey) → Survey
  | some (.ok s) => s
  | _ => ⟨lifInterfaceCollectionInit, 0⟩

theorem loadedSurvey_ok {loaded : Option (Except Str Survey)} (fine : loaded.any Except.isOk = true) :
    loaded = some (.ok (loadedSurvey loaded)) := by
  match loaded, fine with
  | some (.ok _), _ => rfl

def mtuSurvey : Survey := loadedSurvey (ifparseLoad mtuFile unaided {} 10 yamlRaw (str "interfaces"))

theorem loaded_worded_mtu : ifparseLoad mtuFile unaided {} 10 yamlRaw (str "interfaces") = some (.ok mtuSurvey) ∧
    ∀ entry ∈ mtuSurvey.collection.entries, (∀ c ∈ entry.1, isSpace c = false) ∧
      ∀ var ∈ entry.2.vars, var.1.head?.any isAlpha = true ∧ (∀ c ∈ var.1, isSpace c = false) ∧
        (var.2.address?.isSome ↔ var.1 = str "address") := by
  have loaded : ifparseLoad mtuFile unaided {} 10 yamlRaw (str "interfaces") = some (.ok mtuSurvey) :=
    loadedSurvey_ok (by decide +kernel)
  exact ⟨loaded, loaded_worded mtuFile unaided {} 10 yamlRaw (str "interfaces") mtuSurvey loaded⟩

end Ifupdown
