import Ifupdown.Resolver.Survey
import Ifupdown.Session.Stanzas

/-! The order of the collection after its dependencies have been counted. -/
namespace Ifupdown

open Successors Buckets

def Collection.Before (collection : Collection) (i d : Str) : Prop :=
  [i, d].Sublist (lifDictKeys collection.entries)

instance (collection : Collection) (i d : Str) : Decidable (collection.Before i d) :=
  inferInstanceAs (Decidable ([i, d].Sublist _))

/-- Of each dependency: the walk comes to `d` for the last time deeper than to `i`, or equally deep
where `i` has stood before `d` all along. -/
def LastDeeper (collection : Collection) (req : Str → List Str) (i d : Str) : Prop :=
  ∃ m n, Depth req (lifDictKeys collection.entries).reverse i m ∧
    Depth req (lifDictKeys collection.entries).reverse d n ∧ (m < n ∨ m = n ∧ collection.Before i d)

theorem pair_keys {dict : LifDict α} (distinct : (lifDictKeys dict).Nodup) {i d : Str} {a b : α}
    (first : (i, a) ∈ dict) (second : (d, b) ∈ dict) :
    [i, d].Sublist (lifDictKeys dict) ↔ [(i, a), (d, b)].Sublist dict := by
  constructor
  · intro pair
    obtain ⟨entries, inside, same⟩ := List.sublist_map_iff.mp pair
    have entry {name : Str} {data : α} (member : (name, data) ∈ dict) {found : Str × α} (listed : found ∈ entries)
        (named : found.1 = name) : found = (name, data) := by
      obtain ⟨key, value⟩ := found
      obtain rfl : key = name := named
      have read := lifDictFind_of_mem distinct (inside.subset listed)
      rw [lifDictFind_of_mem distinct member] at read
      rw [Option.some.inj read]
    match entries, same with
    | [x, y], same =>
      simp only [List.map_cons, List.map_nil, List.cons.injEq, and_true] at same
      rw [← entry first (by simp) same.1.symm, ← entry second (by simp) same.2.symm]
      exact inside
  · exact fun pair => pair.map Prod.fst

/-- The order is that of the depths, and among equal depths the old one. -/
theorem before_reorder {collection : Collection} {i d : Str} (known_i : i ∈ lifDictKeys collection.entries)
    (known_d : d ∈ lifDictKeys collection.entries) (other : i ≠ d) :
    collection.reorder.Before i d ↔
      (collection.iface i).rdependsCount < (collection.iface d).rdependsCount ∨
        (collection.iface i).rdependsCount = (collection.iface d).rdependsCount ∧ collection.Before i d := by
  have entry_i := mem_entries known_i
  have entry_d := mem_entries known_d
  have apart : (i, collection.iface i) ≠ (d, collection.iface d) := fun same => other (congrArg Prod.fst same)
  rw [Collection.Before, Collection.Before, pair_keys collection.distinct entry_i entry_d,
    pair_keys collection.reorder.distinct (mem_reorder.mpr entry_i) (mem_reorder.mpr entry_d), reorder_entries]
  exact pair_buckets (le_maxDepth collection.entries) (List.Nodup.of_map Prod.fst collection.distinct) entry_i entry_d
    apart

/-- After the dependencies have been counted, every interface stands before those that it requires
just if the walk comes to these last deeper than to it. -/
theorem collection_ordered (env : DependEnv) (opts : LifExecuteOpts) (fuel : Nat) (s s' : Survey) (maxdepth : Nat)
    (learned : Str → LifDict VarData)
    (fresh : ∀ x, (s.collection.iface x).rdependsCount = 0 ∧ (s.collection.iface x).isPending = false)
    (steady : ∀ x, Steady env opts (s.collection.iface x) (learned x))
    (closed : ∀ i ∈ lifDictKeys s.collection.entries, ∀ d ∈ requiresOf (learned i),
      d ∈ lifDictKeys s.collection.entries)
    (acyclic : Acyclic fun i => requiresOf (learned i))
    (success : lifLifecycleCountRdepends env opts fuel s = some (some maxdepth, s')) :
    (∀ i ∈ lifDictKeys s'.collection.entries, ∀ d ∈ requireIfs (s'.collection.iface i), s'.collection.Before i d) ↔
      ∀ i ∈ lifDictKeys s.collection.entries, ∀ d ∈ requiresOf (learned i),
        LastDeeper s.collection (fun i => requiresOf (learned i)) i d := by
  unfold lifLifecycleCountRdepends at success
  rcases walked : countEntries env opts fuel fuel 0 s with _ | ⟨_ | _, last⟩
  · rw [walked] at success
    cases success
  · rw [walked] at success
    cases success
  rw [walked] at success
  cases success
  have start : s.Holds s.collection learned [] :=
    ⟨rfl, fun x => by rw [(fresh x).2]; rfl, fun _ => rfl, fun _ => Or.inl rfl⟩
  obtain ⟨holds, rounds, -, settled⟩ := countEntries_counts acyclic closed steady start walked
  rw [List.drop_zero] at rounds settled
  have depth (x : Str) (n : Nat) : Depth (fun i => requiresOf (learned i)) (lifDictKeys s.collection.entries).reverse x n ↔
      (last.collection.iface x).rdependsCount = n :=
    rounds_depth acyclic rounds (fun x => (fresh x).1) x
  have deeper {i d : Str} (known_i : i ∈ lifDictKeys s.collection.entries)
      (edge : d ∈ requiresOf (learned i)) : last.collection.reorder.Before i d ↔
        LastDeeper s.collection (fun i => requiresOf (learned i)) i d := by
    have other : i ≠ d := by
      rintro rfl
      exact acyclic i (.single edge)
    have keys := holds.keys
    rw [before_reorder (keys ▸ known_i) (keys ▸ closed i known_i d edge) other]
    simp only [LastDeeper, depth, Collection.Before, keys]
    constructor
    · intro ahead
      exact ⟨_, _, rfl, rfl, ahead⟩
    · intro ⟨_, _, first, second, ahead⟩
      rwa [first, second]
  dsimp only
  constructor
  · intro ordered i known d edge
    have inside : i ∈ lifDictKeys last.collection.entries := holds.keys ▸ known
    have here := ordered i (mem_reorder_keys.mpr inside) d
    rw [reorder_iface inside, requireIfs_vars] at here
    rw [show (last.collection.iface i).vars = learned i from settled i known] at here
    exact (deeper known edge).mp (here edge)
  · intro ordered i inside d edge
    have inside := mem_reorder_keys.mp inside
    have known : i ∈ lifDictKeys s.collection.entries := holds.keys ▸ inside
    rw [reorder_iface inside, requireIfs_vars] at edge
    rw [show (last.collection.iface i).vars = learned i from settled i known] at edge
    exact (deeper known edge).mpr (ordered i known d edge)

def quiet : DependEnv where
  executable _ := false
  answer _ _ _ := none

def quietVars (iface : LifInterface) : LifDict VarData :=
  match lifLifecycleQueryDependents quiet {} 0 iface with
  | some (_, vars) => vars
  | none => iface.vars

theorem quiet_query (asked : Nat) (iface : LifInterface) :
    lifLifecycleQueryDependents quiet {} asked iface = some (asked, quietVars iface) := by
  have silent (vars : LifDict VarData) (asked : Nat) (buf : Str) :
      queryDependentsFromExecutors quiet {} (buildEnvironment iface) vars asked buf = some (asked, buf) := by
    induction vars with
    | nil => rfl
    | cons entry rest ih =>
      unfold queryDependentsFromExecutors
      simpa [quiet] using ih
  unfold quietVars lifLifecycleQueryDependents
  simp only [silent]

theorem quiet_entry {collection : Collection} {i d : Str} (edge : d ∈ requiresOf (quietVars (collection.iface i))) :
    ∃ iface, (i, iface) ∈ collection.entries ∧ d ∈ requiresOf (quietVars iface) := by
  unfold Collection.iface at edge
  cases found : lifDictFind collection.entries i with
  | none =>
    rw [found, Option.getD_none] at edge
    unfold lifInterfaceInit at edge
    split at edge <;> cases edge
  | some iface =>
    rw [found] at edge
    exact ⟨iface, lifDictFind_mem found, edge⟩

theorem quiet_steady {collection : Collection}
    (settled : ∀ entry ∈ collection.entries,
      quietVars { entry.2 with vars := quietVars entry.2 } = quietVars entry.2) (x : Str) :
    Steady quiet {} (collection.iface x) (quietVars (collection.iface x)) := by
  have query {iface : LifInterface} : Settles quiet {} iface (quietVars iface) := by
    intro asked result same
    rw [quiet_query] at same
    rw [← Option.some.inj same]
  refine ⟨query, ?_⟩
  suffices same : quietVars { collection.iface x with vars := quietVars (collection.iface x) } =
      quietVars (collection.iface x) by
    have again : Settles quiet {} { collection.iface x with vars := quietVars (collection.iface x) }
        (quietVars { collection.iface x with vars := quietVars (collection.iface x) }) := query
    rwa [same] at again
  unfold Collection.iface
  cases found : lifDictFind collection.entries x with
  | none =>
    rw [Option.getD_none]
    unfold lifInterfaceInit
    split <;> rfl
  | some iface => exact settled _ (lifDictFind_mem found)

theorem fresh_entries {collection : Collection}
    (entries : ∀ entry ∈ collection.entries, entry.2.rdependsCount = 0 ∧ entry.2.isPending = false) (x : Str) :
    (collection.iface x).rdependsCount = 0 ∧ (collection.iface x).isPending = false := by
  unfold Collection.iface
  cases found : lifDictFind collection.entries x with
  | none =>
    rw [Option.getD_none]
    unfold lifInterfaceInit
    split <;> exact ⟨rfl, rfl⟩
  | some iface => exact entries _ (lifDictFind_mem found)

theorem acyclic_quiet {collection : Collection} (order : List Str)
    (falls : ∀ entry ∈ collection.entries, ∀ d ∈ requiresOf (quietVars entry.2),
      order.idxOf entry.1 < order.idxOf d) :
    Acyclic fun i => requiresOf (quietVars (collection.iface i)) := by
  apply acyclic_of_rank order.idxOf
  intro i d edge
  obtain ⟨iface, member, edge⟩ := quiet_entry edge
  exact falls _ member d edge

/-- `br0` over two bonds that share a port, in the reverse of the order in which they are needed. -/
def sharedBonds : Survey where
  collection := (interfacesFile [(str "eth0", []), (str "bond1", [(str "requires", str "eth0")]),
    (str "bond0", [(str "requires", str "eth0")]), (str "br0", [(str "requires", str "bond0 bond1")])]
    (by decide) (by decide) (by decide)).collection

def Survey.counted (s : Survey) : Survey :=
  match lifLifecycleCountRdepends quiet {} 8 s with
  | some (_, s') => s'
  | none => s

theorem collection_ordered_sharedBonds :
    lifLifecycleCountRdepends quiet {} 8 sharedBonds = some (some 2, sharedBonds.counted) ∧
    ∀ i ∈ lifDictKeys sharedBonds.collection.entries, ∀ d ∈ requiresOf (quietVars (sharedBonds.collection.iface i)),
      LastDeeper sharedBonds.collection (fun i => requiresOf (quietVars (sharedBonds.collection.iface i))) i d := by
  have success : lifLifecycleCountRdepends quiet {} 8 sharedBonds = some (some 2, sharedBonds.counted) := rfl
  have ordered := collection_ordered quiet {} 8 sharedBonds sharedBonds.counted 2
    (fun x => quietVars (sharedBonds.collection.iface x)) (fresh_entries (by decide)) (quiet_steady (by decide))
    (by decide) (acyclic_quiet [str "br0", str "bond0", str "bond1", str "eth0"] (by decide)) success
  exact ⟨success, ordered.mp (by decide)⟩

/-- `br0` requires `bond0` and the port of `bond0`. -/
def directPort : Survey where
  collection := (interfacesFile [(str "eth0", []), (str "bond0", [(str "requires", str "eth0")]),
    (str "br0", [(str "requires", str "bond0 eth0")])] (by decide) (by decide) (by decide)).collection

theorem collection_unordered :
    ¬ ∀ (env : DependEnv) (opts : LifExecuteOpts) (fuel : Nat) (s s' : Survey) (maxdepth : Nat)
      (learned : Str → LifDict VarData),
      (∀ x, (s.collection.iface x).rdependsCount = 0 ∧ (s.collection.iface x).isPending = false) →
      (∀ x, Steady env opts (s.collection.iface x) (learned x)) →
      (∀ i ∈ lifDictKeys s.collection.entries, ∀ d ∈ requiresOf (learned i),
        d ∈ lifDictKeys s.collection.entries) →
      (Acyclic fun i => requiresOf (learned i)) →
      lifLifecycleCountRdepends env opts fuel s = some (some maxdepth, s') →
      ∀ i ∈ lifDictKeys s'.collection.entries, ∀ d ∈ requireIfs (s'.collection.iface i), s'.collection.Before i d := by
  intro claim
  have success : lifLifecycleCountRdepends quiet {} 8 directPort = some (some 1, directPort.counted) := rfl
  have ordered := claim quiet {} 8 directPort directPort.counted 1
    (fun x => quietVars (directPort.collection.iface x)) (fresh_entries (by decide)) (quiet_steady (by decide))
    (by decide) (acyclic_quiet [str "br0", str "bond0", str "eth0"] (by decide)) success
  revert ordered
  decide

end Ifupdown
