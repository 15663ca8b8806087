import Ifupdown.Properties.DependenciesHonoured
import Ifupdown.Properties.WordedCollections
import Ifupdown.Resolver.Drawing

/-! The graph that `ifquery --list --dot` draws. -/
namespace Ifupdown

open Successors Relation

section
variable {config : LifConfig} {collection result : Collection}

/-- No interface is pending, and every name that one requires is there. -/
structure Collection.Closed (collection : Collection) : Prop where
  idle : ∀ x, (collection.iface x).isPending = false
  complete : ∀ x, ∀ d ∈ requireIfs (collection.iface x), d ∈ lifDictKeys collection.entries

theorem maybePimp_requires {key : Str} {data : Option VarData} {vars : LifDict VarData} (other : key ≠ str "requires") :
    lifDictFind (maybePimp key data vars) (str "requires") = lifDictFind vars (str "requires") := by
  unfold maybePimp
  split
  · rfl
  · split
    · rw [lifDictFind_add, if_neg other, Option.or_none]
    · rfl

theorem pimpPort_requires (bridgePvid bridgeVids : Option VarData) (port : LifInterface) :
    requireIfs (pimpPort bridgePvid bridgeVids port) = requireIfs port := by
  unfold requireIfs pimpPort
  dsimp only
  rw [maybePimp_requires (by decide), maybePimp_requires (by decide)]

theorem pimpToken_closed {bridgePvid bridgeVids : Option VarData} {token : Str} (closed : collection.Closed) :
    (pimpToken config bridgePvid bridgeVids collection token).Closed := by
  unfold pimpToken
  split
  · have wider : lifDictKeys collection.entries <+: lifDictKeys (collection.write token (pimpPort bridgePvid bridgeVids)
        (pimpPort_ifname bridgePvid bridgeVids)).entries := write_prefix ..
    refine ⟨fun x => ?_, fun x d member => wider.subset (closed.complete x d ?_)⟩
    · rw [iface_write]
      split <;> exact closed.idle x
    · rw [iface_write] at member
      split at member
      · rwa [pimpPort_requires] at member
      · exact member
  · exact closed

theorem pimpBridge_kept {p : Collection → Prop} (bridge : LifInterface)
    (step : ∀ {collection bridgePvid bridgeVids token}, p collection → p (pimpToken config bridgePvid bridgeVids collection token))
    (start : p collection) : p (pimpBridge config collection bridge) := by
  unfold pimpBridge
  dsimp only
  split
  · exact start
  split
  · exact start
  split
  · exact start
  split
  · exact start
  · rename_i entry _ _
    generalize lifTokens (strlcpy 4096 entry.value) = tokens
    induction tokens generalizing collection with
    | nil => exact start
    | cons token rest ih => exact ih (step start)

theorem compatLoop_kept {p : Collection → Prop} {fuel : Nat} {names : List Str}
    (step : ∀ {collection bridgePvid bridgeVids token}, p collection → p (pimpToken config bridgePvid bridgeVids collection token))
    (h : compatIfupdown2BridgePortsInheritVlans config fuel collection names = some result) (start : p collection) : p result := by
  induction fuel generalizing collection names with
  | zero =>
    cases names with
    | nil =>
      cases h
      exact start
    | cons _ _ => cases h
  | succ fuel ih =>
    cases names with
    | nil =>
      cases h
      exact start
    | cons ifname rest => exact ih h (pimpBridge_kept _ step start)

theorem lifCompatApply_kept {p : Collection → Prop}
    (step : ∀ {collection bridgePvid bridgeVids token}, p collection → p (pimpToken config bridgePvid bridgeVids collection token))
    (applied : lifCompatApply config collection = some result) (start : p collection) : p result := by
  unfold lifCompatApply at applied
  split at applied
  · exact compatLoop_kept step applied start
  · cases applied
    exact start

end

theorem countRdepends_closed {env : DependEnv} {opts : LifExecuteOpts} {fuel depth : Nat} {s s' : Survey}
    (h : lifLifecycleCountRdepends env opts fuel s = some (some depth, s')) (idle : ∀ x, s.pending x = false) :
    s'.collection.Closed := by
  unfold lifLifecycleCountRdepends at h
  split at h
  · cases h
  · cases h
  · rename_i last counted
    cases h
    have same := (countEntries_steps counted).2
    have complete := countEntries_complete idle (by simp [Complete]) counted
    refine ⟨fun x => ?_, fun x d member => mem_reorder_keys.mpr ?_⟩
    · rw [iface_reorder]
      exact (congrFun same x).trans (idle x)
    · rw [iface_reorder] at member
      by_cases known : x ∈ lifDictKeys last.collection.entries
      · exact complete x known d member
      · rw [Collection.iface, lifDictFind_none.mpr known, Option.getD_none, requireIfs_init] at member
        cases member

theorem ifparseLoad_closed {host : Host} {env : DependEnv} {opts : LifExecuteOpts} {fuel : Nat} {interfacesFile : Str} {s : Survey}
    (loaded : ifparseLoad host env opts fuel {} interfacesFile = some (.ok s)) : s.collection.Closed := by
  unfold ifparseLoad at loaded
  split at loaded
  · cases loaded
  · cases loaded
  rename_i state parsed
  dsimp only at loaded
  split at loaded
  · cases loaded
  · cases loaded
  rename_i depth counted result
  have closed : counted.collection.Closed := countRdepends_closed (s := ⟨state.collection, 0⟩) result (parsed_pending parsed)
  obtain ⟨collection, applied, same⟩ := Option.map_eq_some_iff.mp loaded
  cases same
  exact lifCompatApply_kept pimpToken_closed applied closed

section
variable {env : DependEnv} {opts : LifExecuteOpts} {inetNtop : InetNtop} {fuel : Nat} {options : QueryOptions} {s t : Survey}

/-- The loop prints a line for each interface that is listed, and then those for the edges below it. -/
theorem listEntries_draws (inetNtop : InetNtop) (rounds : Nat) (settled : s.Settled env opts) (dot : options.dot = true)
    (plain : options.prettyPrint = false) (enough : s.collection.entries.length < fuel) {i : Nat} (bound : i ≤ s.collection.entries.length)
    (more : s.collection.entries.length < i + rounds) (same : t.collection = s.collection) :
    ∃ (statements : List (Option Str × Str)) (t' : Survey),
      listEntries (listInterface env opts inetNtop fuel options) options.toMatchOptions rounds i t =
        some (statements.flatMap (dotStatement s.collection), t') ∧
      ∀ statement, statement ∈ statements ↔ ∃ entry ∈ s.collection.entries.drop i, options.passesOver entry.2 = false ∧
        (statement = (none, entry.1) ∨ ∃ edge, Branch s.requires [] entry.1 edge ∧ statement = edgeStatement edge) := by
  induction rounds generalizing i t with
  | zero => omega
  | succ rounds ih =>
    unfold listEntries
    rw [same]
    rcases here : s.collection.entries[i]? with _ | ⟨name, iface⟩
    · refine ⟨[], t, rfl, fun statement => ?_⟩
      rw [List.drop_eq_nil_of_le (List.getElem?_eq_none_iff.mp here)]
      simp
    · obtain ⟨inside, entry⟩ := List.getElem?_eq_some_iff.mp here
      have front : s.collection.entries.drop i = (name, iface) :: s.collection.entries.drop (i + 1) := by
        rw [List.drop_eq_getElem_cons inside, entry]
      have member : (name, iface) ∈ s.collection.entries := entry ▸ List.getElem_mem inside
      have known : name ∈ lifDictKeys s.collection.entries := List.mem_map_of_mem member
      dsimp only
      rw [front]
      cases passed : options.passesOver iface with
      | true =>
        obtain ⟨statements, t', listed, all⟩ := ih (i := i + 1) inside (by omega) same
        refine ⟨statements, t', ?_, fun statement => ?_⟩
        · rw [if_pos rfl]
          exact listed
        · rw [all]
          simp [passed]
      | false =>
        have few : ((lifDictKeys s.collection.entries).toFinset.filter fun y => y ∉ ([] : List Str)).card < fuel := by
          refine Nat.lt_of_le_of_lt (Finset.card_filter_le _ _) (Nat.lt_of_le_of_lt (List.toFinset_card_le _) ?_)
          rwa [List.length_map]
        have along : s.Along [] t := by
          obtain ⟨keys, iface⟩ := settled.along
          exact ⟨same ▸ keys, same ▸ iface⟩
        obtain ⟨es, draws, t₁, printed, along₁⟩ := printInterfaceDot_draws none settled known along few
        obtain ⟨statements, t', listed, all⟩ := ih (i := i + 1) inside (by omega) (along₁.back settled.idle)
        refine ⟨(none, name) :: es.map edgeStatement ++ statements, t', ?_, fun statement => ?_⟩
        · have shown : listInterface env opts inetNtop fuel options t name = printInterfaceDot env opts fuel none t name := by
            rw [listInterface, plain, dot]
            rfl
          rw [if_neg (by simp), shown, printed]
          dsimp only
          rw [listed, List.flatMap_append]
        · rw [List.mem_append, all, List.mem_cons, List.mem_map]
          simp only [mem_draws_all draws, List.mem_cons, exists_eq_or_imp, passed, true_and, eq_comm (a := statement)]

end

/-- Once the dependencies are known, the graph has a line for each interface that is listed, and one for each end of a walk from
such an interface along dependencies that comes to no interface twice, but for its first one. Without a cycle these are the
dependencies of all interfaces that can be reached; and when all are listed no dependency is left out, cycle or not. -/
theorem dependency_graph (host : Host) (env : DependEnv) (opts : LifExecuteOpts) (inetNtop : InetNtop) (fuel : Nat)
    (options : QueryOptions) (state : StateDict) (interfacesFile : Str) (args : List Str) (s : Survey)
    (loaded : ifparseLoad host env opts fuel {} interfacesFile = some (.ok s))
    (again : ∀ x ∈ lifDictKeys s.collection.entries, ∀ asked, ∃ asked',
      lifLifecycleQueryDependents env opts asked (s.collection.iface x) = some (asked', (s.collection.iface x).vars))
    (deep : s.collection.entries.length < fuel)
    (chosen : options.listing = true ∧ options.dot = true ∧ options.prettyPrint = false ∧ options.property = none ∧
      options.listingStat = false ∧ options.listingRunning = false) :
    ∃ statements : List (Option Str × Str),
      ifqueryMain host env opts inetNtop fuel options state interfacesFile args =
        some (true, dotHeader ++ statements.flatMap (dotStatement s.collection) ++ dotFooter) ∧
      (∀ x, (none, x) ∈ statements ↔ ∃ entry ∈ s.collection.entries, options.passesOver entry.2 = false ∧ entry.1 = x) ∧
      (∀ p c, (some p, c) ∈ statements ↔ ∃ entry ∈ s.collection.entries, options.passesOver entry.2 = false ∧
        ∃ xs, List.IsChain (Edge s.requires) (entry.1 :: (xs ++ [c])) ∧ (entry.1 :: xs).getLast? = some p ∧ (xs ++ [c]).Nodup) ∧
      (Acyclic s.requires → ∀ p c, (some p, c) ∈ statements ↔ ∃ entry ∈ s.collection.entries, options.passesOver entry.2 = false ∧
        ReflTransGen (Edge s.requires) entry.1 p ∧ c ∈ s.requires p) ∧
      ((∀ entry ∈ s.collection.entries, options.passesOver entry.2 = false) →
        ∀ p c, (some p, c) ∈ statements ↔ c ∈ s.requires p) := by
  obtain ⟨listing, dot, plain, property, stat, running⟩ := chosen
  obtain ⟨idle, complete⟩ := ifparseLoad_closed loaded
  have settled : s.Settled env opts := ⟨idle, fun x _ => complete x, again⟩
  obtain ⟨statements, t, listed, all⟩ :=
    listEntries_draws (t := s) inetNtop fuel settled dot plain deep (Nat.zero_le _) (by omega) rfl
  rw [List.drop_zero] at all
  have node (x : Str) : (none, x) ∈ statements ↔ ∃ entry ∈ s.collection.entries, options.passesOver entry.2 = false ∧ entry.1 = x := by
    rw [all]
    refine exists_congr fun entry => and_congr_right fun _ => and_congr_right fun _ => ?_
    constructor
    · rintro (same | ⟨edge, -, same⟩)
      · exact (Prod.mk.inj same).2.symm
      · cases same
    · rintro rfl
      exact Or.inl rfl
  have edge (p c : Str) : (some p, c) ∈ statements ↔ ∃ entry ∈ s.collection.entries, options.passesOver entry.2 = false ∧
      Branch s.requires [] entry.1 (p, c) := by
    rw [all]
    simp [edgeStatement]
  refine ⟨statements, ?_, node, fun p c => ?_, fun acyclic p c => ?_, fun every p c => ?_⟩
  · unfold ifqueryMain
    rw [property, loaded]
    dsimp only
    rw [listing, stat, running]
    unfold listInterfaces
    rw [listed, dot]
    rfl
  · rw [edge]
    refine exists_congr fun entry => and_congr_right fun _ => and_congr_right fun _ => branch_iff.trans ?_
    exact exists_congr fun xs => and_congr_right fun _ => and_congr_right fun _ => and_iff_left fun _ _ => List.not_mem_nil
  · rw [edge]
    constructor
    · rintro ⟨entry, member, shown, branch⟩
      exact ⟨entry, member, shown, branch_reaches branch⟩
    · rintro ⟨entry, member, shown, reach, edge⟩
      exact ⟨entry, member, shown, branch_acyclic acyclic (by simp) reach edge⟩
  · rw [edge]
    constructor
    · rintro ⟨entry, -, -, branch⟩
      exact (branch_reaches branch).2
    · intro needed
      have known : p ∈ lifDictKeys s.collection.entries := by
        by_contra absent
        rw [Survey.requires, Collection.iface, lifDictFind_none.mpr absent, Option.getD_none, requireIfs_init] at needed
        cases needed
      obtain ⟨entry, member, rfl⟩ := List.mem_map.mp known
      exact ⟨entry, member, every entry member, .here needed (by simp)⟩

/-- A bond of two interfaces, below a VLAN. -/
def bondFile : Host := oneFile "auto bond0.7\niface bond0.7\n  requires bond0\niface bond0\n  requires eth0 eth1\niface eth0\niface eth1\n"

@[irreducible] def bondSurvey : Survey := loadedSurvey (ifparseLoad bondFile quiet {} 12 {} (str "interfaces"))

def autoGraph : QueryOptions where
  isAuto := true
  listing := true
  dot := true

theorem dependency_graph_bond : ∃ statements : List (Option Str × Str),
    ifqueryMain bondFile quiet {} (fun _ _ => none) 12 autoGraph StateDict.empty (str "interfaces") [] =
      some (true, dotHeader ++ statements.flatMap (dotStatement bondSurvey.collection) ++ dotFooter) ∧
    (none, str "bond0.7") ∈ statements ∧ (none, str "bond0") ∉ statements ∧ (some (str "bond0"), str "eth1") ∈ statements := by
  have loaded : ifparseLoad bondFile quiet {} 12 {} (str "interfaces") = some (.ok bondSurvey) := by
    unfold bondSurvey
    exact loadedSurvey_ok (by decide +kernel)
  have same : ∀ x ∈ lifDictKeys bondSurvey.collection.entries,
      quietVars (bondSurvey.collection.iface x) = (bondSurvey.collection.iface x).vars := by decide +kernel
  have few : bondSurvey.collection.entries.length < 12 := by decide +kernel
  have known : str "bond0.7" ∈ lifDictKeys bondSurvey.collection.entries := by decide +kernel
  have shown : autoGraph.passesOver (bondSurvey.collection.iface (str "bond0.7")) = false := by decide +kernel
  have hidden : autoGraph.passesOver (bondSurvey.collection.iface (str "bond0")) = true := by decide +kernel
  have first : bondSurvey.requires (str "bond0.7") = [str "bond0"] := by decide +kernel
  have second : bondSurvey.requires (str "bond0") = [str "eth0", str "eth1"] := by decide +kernel
  have again : ∀ x ∈ lifDictKeys bondSurvey.collection.entries, ∀ asked, ∃ asked', lifLifecycleQueryDependents quiet {} asked
      (bondSurvey.collection.iface x) = some (asked', (bondSurvey.collection.iface x).vars) := by
    intro x member asked
    exact ⟨asked, (quiet_query asked _).trans (congrArg (fun vars => some (asked, vars)) (same x member))⟩
  have entry : (str "bond0.7", bondSurvey.collection.iface (str "bond0.7")) ∈ bondSurvey.collection.entries := mem_entries known
  have chain : List.IsChain (Edge bondSurvey.requires) [str "bond0.7", str "bond0", str "eth1"] := by
    refine .cons_cons ?_ (.cons_cons ?_ (.singleton _))
    · rw [Edge, first]
      exact List.mem_cons_self
    · rw [Edge, second]
      exact List.mem_cons_of_mem _ List.mem_cons_self
  obtain ⟨statements, printed, node, edge, -⟩ := dependency_graph bondFile quiet {} (fun _ _ => none) 12 autoGraph StateDict.empty
    (str "interfaces") [] bondSurvey loaded again few ⟨rfl, rfl, rfl, rfl, rfl, rfl⟩
  refine ⟨statements, printed, (node _).mpr ⟨_, entry, shown, rfl⟩, fun listed => ?_, (edge _ _).mpr ⟨_, entry, shown, ?_⟩⟩
  · obtain ⟨entry, member, passed, name⟩ := (node _).mp listed
    have iface := iface_of_mem member
    rw [name] at iface
    rw [← iface] at passed
    exact absurd (hidden.symm.trans passed) (by decide)
  · exact ⟨[str "bond0"], chain, rfl, by decide⟩

end Ifupdown
