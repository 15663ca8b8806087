import Ifupdown.Parser.Inheritance
import Ifupdown.Properties.CollectionOrder
import Ifupdown.Resolver.Closure
import Ifupdown.Resolver.Queries

/-! What becomes of the names in the `requires` entries of an interfaces file. -/
namespace Ifupdown

/-- The names in all `requires` entries of an interface. -/
def LifInterface.declared (iface : LifInterface) : List Str :=
  iface.vars.flatMap fun entry => if entry.1 = str "requires" then lifTokens entry.2.value else []

section
variable {host : Host} {collection collection' : Collection}

theorem change_pending (step : Change) (iface : LifInterface) :
    (step.apply host iface).isPending = iface.isPending := by
  cases step with
  | useExecutor executor =>
    obtain ⟨_, _, _, same⟩ := lifInterfaceUseExecutor_frame host.dhcpHostname iface executor
    rw [Change.apply, same]
  | addressAdd address =>
    obtain ⟨_, _, _, same⟩ := lifInterfaceAddressAdd_frame host.inetPton iface address
    rw [Change.apply, same]
  | _ => rfl

theorem edit_pending {edit : Edit} (h : edit.apply host collection = some collection')
    (idle : ∀ x, (collection.iface x).isPending = false) (x : Str) : (collection'.iface x).isPending = false := by
  cases edit with
  | find ifname =>
    cases h
    rw [iface_collectionFind]
    exact idle x
  | change ifname step =>
    cases h
    rw [iface_write]
    split
    · rw [change_pending]
      exact idle x
    · exact idle x
  | inherit ifname parent =>
    obtain ⟨vars, -, after⟩ := inherit_iface h
    rw [after]
    dsimp only
    split
    · split <;> exact idle x
    · split <;> exact idle x

theorem init_pending (x : Str) : (lifInterfaceCollectionInit.iface x).isPending = false := by
  rw [lifInterfaceCollectionInit, iface_write]
  split
  · rename_i lo
    subst lo
    rfl
  · exact lifInterfaceInit_pending x

theorem parsed_pending {fuel : Nat} {filename : Str} {ok : Bool} {state : ParseState}
    (parsed : lifInterfaceFileParse host fuel {} filename = some (ok, state)) (x : Str) :
    (state.collection.iface x).isPending = false := by
  obtain ⟨reached, made⟩ := lifInterfaceFileParse_traced traced_start parsed
  exact applyEdits_invariant made reached init_pending (fun _ _ _ _ step idle => edit_pending step idle) x

end

theorem quiet_closed (names : Finset Str) : quiet.Closed {} names := by
  intro asked iface answer query within d member
  obtain ⟨more, kept, silent⟩ := query_requires query
  rw [kept, silent fun _ => rfl, List.append_nil] at member
  exact within d ((keepWords_sublist _).subset member)

/-- No query lets its loop leave the buffer by what executors print. -/
def DependEnv.Fits (env : DependEnv) (opts : LifExecuteOpts) (queries : List Query) : Prop :=
  ∀ q ∈ queries, q.outputs env opts ≠ some [] → q.Contained env opts

theorem quiet_fits (queries : List Query) : quiet.Fits {} queries :=
  fun _ _ printed => absurd (executorOutputs_silent fun _ => rfl) printed

/-- Without executors the names are those of the first entry that are not covered. -/
theorem quiet_settles {collection : Collection} (idle : ∀ x, (collection.iface x).isPending = false) :
    ∃ rounds maxdepth s', lifLifecycleCountRdepends quiet {} rounds { collection := collection } = some (some maxdepth, s') ∧
      ∀ x ∈ lifDictKeys collection.entries, ∀ name ∈ requireIfs (s'.collection.iface x),
        Uncovered name (requireIfs (collection.iface x)) := by
  obtain ⟨ok, last, result⟩ := countEntries_total (quiet_closed collection.names) (collection_survey collection) idle
    (Nat.lt_succ_self _) (Nat.zero_le _) (by rw [Nat.zero_add]; exact Nat.lt_succ_self _)
  obtain rfl : ok = true := by
    refine countEntries_ok (fun asked iface => ?_) result
    rw [quiet_query]
    rfl
  have old (s : Survey) (x : Str) (inv : s.requires x = requireIfs (collection.iface x) ∨
      ∀ name ∈ s.requires x, Uncovered name (requireIfs (collection.iface x))) :
      ∀ name ∈ keepWords (s.requires x), Uncovered name (requireIfs (collection.iface x)) := by
    intro name member
    rcases inv with same | settled
    · rw [same] at member
      exact mem_keepWords.mp member
    · exact settled name ((keepWords_sublist _).subset member)
  have step {s s' : Survey} (step : SurveyStep quiet {} s s') (x : Str) :
      s'.requires x = s.requires x ∨ s'.requires x = keepWords (s.requires x) := by
    rcases step.requires x with same | ⟨more, kept, silent⟩
    · exact Or.inl same
    · rw [silent fun _ => rfl, List.append_nil] at kept
      exact Or.inr kept
  have start : ∀ x, Survey.pending { collection := collection } x = false := idle
  obtain ⟨steps, settled⟩ := countEntries_visits
    (fun s => ∀ x, s.requires x = requireIfs (collection.iface x) ∨
      ∀ name ∈ s.requires x, Uncovered name (requireIfs (collection.iface x)))
    (fun x s => ∀ name ∈ s.requires x, Uncovered name (requireIfs (collection.iface x)))
    (fun {s s'} taken inv x => by
      rcases step taken x with same | kept
      · rw [same]
        exact inv x
      · rw [kept]
        exact Or.inr (old s x (inv x)))
    (fun {s s' x} taken settled => by
      rcases step taken x with same | kept
      · rw [same]
        exact settled
      · rw [kept]
        exact old s x (Or.inr settled))
    (fun {s x answer} depth inv query => by
      obtain ⟨more, kept, silent⟩ := query_requires query
      rw [enter_requires, if_pos rfl, kept, silent fun _ => rfl, List.append_nil]
      exact old s x (inv x))
    (fun x => Or.inl rfl) start (by simp) result
  refine ⟨_, _, _, by rw [lifLifecycleCountRdepends, result], fun x known name member => ?_⟩
  rw [iface_reorder] at member
  exact settled x (steps.keys.subset known) name member

/-- All names are honoured, whatever executors add that fits, just if the first entry names them all and no
earlier name in it covers one. -/
theorem dependencies_honoured (host : Host) (fuel : Nat) (filename : Str) (state : ParseState)
    (parsed : lifInterfaceFileParse host fuel {} filename = some (true, state)) :
    (∀ (env : DependEnv) (opts : LifExecuteOpts) (rounds maxdepth : Nat) (s' : Survey),
      env.Fits opts (queriesEntries env opts rounds rounds 0 { collection := state.collection }) →
      lifLifecycleCountRdepends env opts rounds { collection := state.collection } = some (some maxdepth, s') →
      ∀ entry ∈ state.collection.entries, ∀ name ∈ entry.2.declared,
        name ∈ requireIfs (s'.collection.iface entry.1)) ↔
    ∀ entry ∈ state.collection.entries, ∀ name ∈ entry.2.declared, Uncovered name (requireIfs entry.2) := by
  have idle := parsed_pending parsed
  constructor
  · intro honoured entry member name declared
    obtain ⟨rounds, maxdepth, s', success, settled⟩ := quiet_settles idle
    have processed := honoured quiet {} rounds maxdepth s' (quiet_fits _) success entry member name declared
    rw [← iface_of_mem member]
    exact settled entry.1 (List.mem_map_of_mem member) name processed
  · intro kept env opts rounds maxdepth s' _ success entry member name declared
    unfold lifLifecycleCountRdepends at success
    rcases result : countEntries env opts rounds rounds 0 { collection := state.collection } with _ | ⟨_ | _, last⟩
    · rw [result] at success
      cases success
    · rw [result] at success
      cases success
    rw [result] at success
    cases success
    have start : ∀ x, Survey.pending { collection := state.collection } x = false := idle
    obtain ⟨steps, -⟩ := countEntries_visits (fun _ => True) (fun _ _ => True) (fun _ _ => trivial)
      (fun _ _ => trivial) (fun _ _ _ => trivial) trivial start (fun _ _ => trivial) result
    have stays := steps.invariant (fun s => Uncovered name (s.requires entry.1)) (fun step uncovered => by
      rcases step.requires entry.1 with same | ⟨more, same, -⟩
      · rw [same]
        exact uncovered
      · rw [same]
        exact uncovered_keepWords (uncovered.append more)) (by
      rw [Survey.requires, iface_of_mem member]
      exact kept entry member name declared)
    rw [iface_reorder]
    exact stays.mem

/-- A bridge whose second stanza names one of its ports once more. -/
def repeatedPort : Host := oneFile "iface br0\nrequires eth0 eth1\niface br0\nrequires eth1\n"

theorem dependencies_honoured_repeatedPort :
    ∃ rounds maxdepth s',
      lifLifecycleCountRdepends quiet {} rounds { collection := repeatedPort.read.collection } =
        some (some maxdepth, s') ∧
      ∀ entry ∈ repeatedPort.read.collection.entries, ∀ name ∈ entry.2.declared,
        name ∈ requireIfs (s'.collection.iface entry.1) := by
  have parsed : lifInterfaceFileParse repeatedPort 2 {} (str "interfaces") = some (true, repeatedPort.read) :=
    read_parsed (by decide +kernel)
  obtain ⟨rounds, maxdepth, s', success, -⟩ := quiet_settles (parsed_pending parsed)
  have honoured := (dependencies_honoured repeatedPort 2 (str "interfaces") repeatedPort.read parsed).mpr
    (by decide +kernel)
  exact ⟨rounds, maxdepth, s', success, honoured quiet {} rounds maxdepth s' (quiet_fits _) success⟩

/-- A bridge whose second stanza names a second port. -/
def secondPort : Host := oneFile "iface br0\nrequires eth0\niface br0\nrequires eth1\n"

theorem dependencies_ignored :
    ¬ ∀ (host : Host) (fuel : Nat) (filename : Str) (state : ParseState),
      lifInterfaceFileParse host fuel {} filename = some (true, state) →
      ∀ (env : DependEnv) (opts : LifExecuteOpts) (rounds maxdepth : Nat) (s' : Survey),
        lifLifecycleCountRdepends env opts rounds { collection := state.collection } = some (some maxdepth, s') →
        ∀ entry ∈ state.collection.entries, ∀ name ∈ entry.2.declared,
          name ∈ requireIfs (s'.collection.iface entry.1) := by
  intro claim
  have parsed : lifInterfaceFileParse secondPort 2 {} (str "interfaces") = some (true, secondPort.read) :=
    read_parsed (by decide +kernel)
  obtain ⟨rounds, maxdepth, s', success, settled⟩ := quiet_settles (parsed_pending parsed)
  have ignored : ∃ entry ∈ secondPort.read.collection.entries, str "eth1" ∈ entry.2.declared ∧
      ¬ Uncovered (str "eth1") (requireIfs (secondPort.read.collection.iface entry.1)) := by decide +kernel
  obtain ⟨entry, member, declared, covered⟩ := ignored
  have processed := claim secondPort 2 (str "interfaces") secondPort.read parsed quiet {} rounds maxdepth s' success entry
    member (str "eth1") declared
  exact covered (settled entry.1 (List.mem_map_of_mem member) (str "eth1") processed)

end Ifupdown
