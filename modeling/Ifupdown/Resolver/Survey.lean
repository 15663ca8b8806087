import Ifupdown.Base.DepthWalk
import Ifupdown.Base.Buckets
import Ifupdown.Model.Rdepends

/-! What counting the dependencies of a collection does, when executors give the same answers
whenever they are asked. -/
namespace Ifupdown

open Successors Buckets

variable {env : DependEnv} {opts : LifExecuteOpts} {start : Collection} {learned : Str → LifDict VarData}
  {path : List Str} {s s' : Survey} {parent : Str} {depth : Nat}

def Survey.count (s : Survey) (x : Str) : Nat := (s.collection.iface x).rdependsCount

def Survey.vars (s : Survey) (x : Str) : LifDict VarData := (s.collection.iface x).vars

/-- Asked about `iface`, executors leave it with these variables, if they succeed. -/
def Settles (env : DependEnv) (opts : LifExecuteOpts) (iface : LifInterface) (vars : LifDict VarData) : Prop :=
  ∀ asked result, lifLifecycleQueryDependents env opts asked iface = some result → result.2 = vars

theorem lifInterfaceInit_pending (ifname : Str) : (lifInterfaceInit ifname).isPending = false := by
  unfold lifInterfaceInit
  dsimp only
  split <;> rfl

/-- The first query settles the variables, and no later one changes them. -/
structure Steady (env : DependEnv) (opts : LifExecuteOpts) (iface : LifInterface) (vars : LifDict VarData) : Prop where
  first : Settles env opts iface vars
  again : Settles env opts { iface with vars := vars } vars

def requiresOf (vars : LifDict VarData) : List Str := requireIfs { ifname := [], vars := vars }

theorem requireIfs_vars (iface : LifInterface) : requireIfs iface = requiresOf iface.vars := rfl

theorem settles_congr {a b : LifInterface} (same : buildEnvironment a = buildEnvironment b)
    (settles : Settles env opts a vars) : Settles env opts b vars := by
  intro asked result query
  have data : a.vars = b.vars := congrArg Environment.vars same
  apply settles asked result
  unfold lifLifecycleQueryDependents at query ⊢
  rwa [same, data]

/-- The survey of a collection that started as `start`, on its way along `path`. -/
structure Survey.Holds (start : Collection) (learned : Str → LifDict VarData) (path : List Str) (s : Survey) :
    Prop where
  keys : lifDictKeys s.collection.entries = lifDictKeys start.entries
  pending : ∀ x, (s.collection.iface x).isPending = decide (x ∈ path)
  bridge : ∀ x, (s.collection.iface x).isBridge = (start.iface x).isBridge
  vars : ∀ x, s.vars x = (start.iface x).vars ∨ s.vars x = learned x

theorem Survey.Holds.settles (holds : s.Holds start learned path)
    (steady : ∀ x, Steady env opts (start.iface x) (learned x)) (x : Str) :
    Settles env opts (s.collection.iface x) (learned x) := by
  rcases holds.vars x with same | same
  · refine settles_congr ?_ (steady x).first
    rw [buildEnvironment, buildEnvironment, Collection.iface_ifname, Collection.iface_ifname, holds.bridge x]
    exact congrArg _ same.symm
  · refine settles_congr ?_ (steady x).again
    rw [buildEnvironment, buildEnvironment, Collection.iface_ifname, Collection.iface_ifname, holds.bridge x]
    exact congrArg _ same.symm

theorem collectionFind_known {collection : Collection} (known : ifname ∈ lifDictKeys collection.entries) :
    (lifInterfaceCollectionFind collection ifname).2 = collection := by
  unfold lifInterfaceCollectionFind
  split
  · rfl
  · rename_i absent
    exact absurd known (lifDictFind_none.mp absent)

theorem write_keys {collection : Collection} (known : ifname ∈ lifDictKeys collection.entries)
    {f : LifInterface → LifInterface} (keeps : ∀ interface, (f interface).ifname = interface.ifname) :
    lifDictKeys (collection.write ifname f keeps).entries = lifDictKeys collection.entries := by
  rw [Collection.write]
  dsimp only
  rw [lifDictKeys_write, collectionFind_known known]

theorem Survey.Holds.enter (holds : s.Holds start learned path) (known : parent ∈ lifDictKeys start.entries)
    (asked depth : Nat) :
    let entered := { s with asked := asked }.write parent
      (fun iface => { iface with vars := learned parent, isPending := true, rdependsCount := depth }) (fun _ => rfl)
    entered.Holds start learned (parent :: path) ∧ entered.count = Function.update s.count parent depth ∧
      entered.vars = Function.update s.vars parent (learned parent) := by
  refine ⟨⟨?_, fun x => ?_, fun x => ?_, fun x => ?_⟩, ?_, ?_⟩
  · rw [← holds.keys]
    refine write_keys (holds.keys ▸ known) ?_
    exact fun _ => rfl
  · have before := holds.pending x
    simp only [Survey.write, iface_write]
    by_cases same : parent = x
    · simp [same]
    · simp [same, Ne.symm same, before]
  · rw [← holds.bridge x]
    simp only [Survey.write, iface_write]
    split <;> rfl
  · have before := holds.vars x
    simp only [Survey.vars, Survey.write, iface_write] at before ⊢
    by_cases same : parent = x
    · simp [same]
    · simpa [same] using before
  · funext x
    simp only [Survey.count, Survey.write, iface_write, Function.update_apply, eq_comm (a := x)]
    split <;> rfl
  · funext x
    simp only [Survey.vars, Survey.write, iface_write, Function.update_apply, eq_comm (a := x)]
    split <;> rfl

theorem Survey.Holds.leave (holds : s.Holds start learned (parent :: path)) (known : parent ∈ lifDictKeys start.entries)
    (fresh : parent ∉ path) :
    (s.setPending parent false).Holds start learned path ∧ (s.setPending parent false).count = s.count ∧
      (s.setPending parent false).vars = s.vars := by
  refine ⟨⟨?_, fun x => ?_, fun x => ?_, fun x => ?_⟩, ?_, ?_⟩
  · rw [← holds.keys]
    refine write_keys (holds.keys ▸ known) ?_
    exact fun _ => rfl
  · have before := holds.pending x
    simp only [Survey.setPending, iface_setPending]
    by_cases same : parent = x
    · subst same
      simp [fresh]
    · simp [same, before, Ne.symm same]
  · rw [← holds.bridge x]
    simp only [Survey.setPending, iface_setPending]
    split <;> rfl
  · have before := holds.vars x
    simp only [Survey.vars, Survey.setPending, iface_setPending] at before ⊢
    split <;> exact before
  · funext x
    simp only [Survey.count, Survey.setPending, iface_setPending]
    split <;> rfl
  · funext x
    simp only [Survey.vars, Survey.setPending, iface_setPending]
    split <;> rfl

def Learns (learned : Str → LifDict VarData) (s s' : Survey) : Prop :=
  ∀ x, s.vars x = learned x → s'.vars x = learned x

def Counts (start : Collection) (learned : Str → LifDict VarData) (path : List Str) (xs : List Str) (depth : Nat)
    (s s' : Survey) : Prop :=
  s'.Holds start learned path ∧ Walks (fun i => requiresOf (learned i)) xs depth s.count s'.count ∧
    Learns learned s s' ∧ ∀ x ∈ xs, s'.vars x = learned x

theorem countTokens_counts {count : Survey → Str → Nat → Option (Bool × Survey)} {tokens : List Str}
    (counts : ∀ {s s' : Survey} {token : Str}, token ∈ tokens → s.Holds start learned path →
      count s token (depth + 1) = some (true, s') → Counts start learned path [token] (depth + 1) s s')
    (known : ∀ token ∈ tokens, token ∈ lifDictKeys start.entries) (holds : s.Holds start learned path)
    (h : countTokens count depth tokens s = some (true, s')) :
    Counts start learned path tokens (depth + 1) s s' := by
  induction tokens generalizing s with
  | nil =>
    cases h
    exact ⟨holds, .nil, fun _ same => same, by simp⟩
  | cons token rest ih =>
    obtain ⟨here, later⟩ := List.forall_mem_cons.mp known
    have found : { s with collection := (lifInterfaceCollectionFind s.collection token).2 } = s := by
      rw [collectionFind_known (holds.keys ▸ here)]
    rw [countTokens, found] at h
    rcases result : count s token (depth + 1) with _ | ⟨_ | _, s₁⟩
    · rw [result] at h
      cases h
    · rw [result] at h
      cases h
    · rw [result] at h
      obtain ⟨holds₁, walk, learns₁, own⟩ := counts List.mem_cons_self holds result
      obtain ⟨holds₂, walks, learns₂, others⟩ :=
        ih (fun member => counts (List.mem_cons_of_mem _ member)) later holds₁ h
      refine ⟨holds₂, ?_, fun x same => learns₂ x (learns₁ x same), fun x member => ?_⟩
      · cases walk with
        | cons below stop =>
          cases stop
          exact .cons below walks
      · rcases List.mem_cons.mp member with rfl | later
        · exact learns₂ x (own x (List.mem_singleton_self x))
        · exact others x later

theorem countInterfaceRdepends_counts (acyclic : Acyclic fun i => requiresOf (learned i))
    (closed : ∀ i ∈ lifDictKeys start.entries, ∀ d ∈ requiresOf (learned i), d ∈ lifDictKeys start.entries)
    (steady : ∀ x, Steady env opts (start.iface x) (learned x)) {fuel : Nat}
    (known : parent ∈ lifDictKeys start.entries) (holds : s.Holds start learned path)
    (leads : ∀ p ∈ path, Relation.TransGen (Edge fun i => requiresOf (learned i)) p parent)
    (h : countInterfaceRdepends env opts fuel s parent depth = some (true, s')) :
    Counts start learned path [parent] depth s s' := by
  induction fuel generalizing s s' parent depth path with
  | zero => cases h
  | succ fuel ih =>
    have fresh : parent ∉ path := fun loop => acyclic parent (leads parent loop)
    have idle : (s.collection.iface parent).isPending = false := by
      rw [holds.pending parent]
      exact decide_eq_false fresh
    unfold countInterfaceRdepends at h
    rw [idle] at h
    simp only [Bool.false_eq_true, if_false] at h
    rcases query : lifLifecycleQueryDependents env opts s.asked (s.collection.iface parent) with _ | ⟨asked, vars⟩
    · rw [query] at h
      cases h
    obtain rfl : vars = learned parent := holds.settles steady parent s.asked _ query
    rw [query] at h
    dsimp only at h
    obtain ⟨inside, counted, known₁⟩ := holds.enter known asked depth
    revert h inside counted known₁
    generalize ({ s with asked := asked } : Survey).write parent _ _ = entered
    intro h inside counted known₁
    have own : entered.vars parent = learned parent := by rw [known₁, Function.update_self]
    have learns₁ : Learns learned s entered := by
      intro x same
      rw [known₁]
      by_cases this : x = parent
      · subst this
        rw [Function.update_self]
      · rw [Function.update_of_ne this]
        exact same
    -- the tokens that are walked, and what is left of the walk
    suffices walked : ∃ last, s' = last.setPending parent false ∧
        Counts start learned (parent :: path) (requiresOf (learned parent)) (depth + 1) entered last by
      obtain ⟨last, rfl, holds₂, walks, learns₂, -⟩ := walked
      obtain ⟨outside, same, kept⟩ := holds₂.leave known fresh
      refine ⟨outside, ?_, fun x before => ?_, fun x member => ?_⟩
      · rw [same]
        rw [counted] at walks
        exact .cons walks .nil
      · rw [kept]
        exact learns₂ x (learns₁ x before)
      · obtain rfl := List.mem_singleton.mp member
        rw [kept]
        exact learns₂ x own
    by_cases absent : (lifDictFind (learned parent) (str "requires")).isNone = true
    · rw [if_pos absent] at h
      cases h
      have none : requiresOf (learned parent) = [] := by
        unfold requiresOf requireIfs
        rw [Option.isNone_iff_eq_none.mp absent]
      refine ⟨entered, rfl, inside, ?_, fun _ same => same, ?_⟩
      · rw [none]
        exact .nil
      · simp [none]
    · rw [if_neg absent, requireIfs_vars] at h
      rw [show (entered.collection.iface parent).vars = learned parent from own] at h
      rcases result : countTokens (countInterfaceRdepends env opts fuel) depth (requiresOf (learned parent)) entered
        with _ | ⟨ok, last⟩
      · rw [result] at h
        cases h
      rw [result] at h
      cases h
      refine ⟨last, rfl, countTokens_counts (fun {_ _ token} member holds h => ?_) (closed parent known) inside result⟩
      refine ih (closed parent known token member) holds (fun p waits => ?_) h
      rcases List.mem_cons.mp waits with rfl | waits
      · exact .single member
      · exact (leads p waits).tail member

theorem drop_keys {collection : Collection} {i : Nat} (entry : collection.entries[i]? = some (name, iface)) :
    (lifDictKeys collection.entries).drop i = name :: (lifDictKeys collection.entries).drop (i + 1) ∧
      collection.iface name = iface := by
  obtain ⟨bound, here⟩ := List.getElem?_eq_some_iff.mp entry
  constructor
  · rw [List.drop_eq_getElem_cons (by rw [List.length_map]; exact bound), List.getElem_map, here]
  · exact iface_of_mem (List.mem_of_getElem? entry)

theorem countEntries_counts (acyclic : Acyclic fun i => requiresOf (learned i))
    (closed : ∀ i ∈ lifDictKeys start.entries, ∀ d ∈ requiresOf (learned i), d ∈ lifDictKeys start.entries)
    (steady : ∀ x, Steady env opts (start.iface x) (learned x)) {fuel rounds i : Nat}
    (holds : s.Holds start learned []) (h : countEntries env opts fuel rounds i s = some (true, s')) :
    s'.Holds start learned [] ∧
      Rounds (fun i => requiresOf (learned i)) ((lifDictKeys start.entries).drop i) s.count s'.count ∧
      Learns learned s s' ∧ ∀ x ∈ (lifDictKeys start.entries).drop i, s'.vars x = learned x := by
  induction rounds generalizing i s with
  | zero => cases h
  | succ rounds ih =>
    unfold countEntries at h
    rcases entry : s.collection.entries[i]? with _ | ⟨name, iface⟩
    · rw [entry] at h
      cases h
      have past : (lifDictKeys start.entries).drop i = [] := by
        rw [← holds.keys, List.drop_eq_nil_iff, List.length_map]
        exact List.getElem?_eq_none_iff.mp entry
      rw [past]
      exact ⟨holds, .nil, fun _ same => same, by simp⟩
    · obtain ⟨split, here⟩ := drop_keys entry
      rw [holds.keys] at split
      have known : name ∈ lifDictKeys start.entries := by
        apply List.mem_of_mem_drop (i := i)
        rw [split]
        exact List.mem_cons_self
      rw [entry] at h
      dsimp only at h
      rcases result : countInterfaceRdepends env opts fuel s name iface.rdependsCount with _ | ⟨_ | _, s₁⟩
      · rw [result] at h
        cases h
      · rw [result] at h
        cases h
      · rw [result] at h
        rw [show iface.rdependsCount = s.count name by rw [Survey.count, here]] at result
        obtain ⟨holds₁, walk, learns₁, own⟩ :=
          countInterfaceRdepends_counts acyclic closed steady known holds (by simp) result
        obtain ⟨holds₂, rounds, learns₂, others⟩ := ih holds₁ h
        rw [split]
        refine ⟨holds₂, .cons walk rounds, fun x same => learns₂ x (learns₁ x same), fun x member => ?_⟩
        rcases List.mem_cons.mp member with rfl | later
        · exact learns₂ x (own x (List.mem_singleton_self x))
        · exact others x later

/-- The second half of `lif_lifecycle_count_rdepends` puts the entries in the order of their depths. -/
theorem readd_eq (curdepth : Nat) (entries list : LifDict LifInterface) :
    readd curdepth entries.reverse list = buckets (fun entry => entry.2.rdependsCount) curdepth entries ++ list := by
  induction curdepth generalizing entries list with
  | zero =>
    simp [readd, readdDepth_eq, List.filter_reverse, buckets]
  | succ curdepth ih =>
    rw [readd, readdDepth_eq]
    dsimp only
    rw [List.filter_reverse, List.filter_reverse, List.reverse_reverse, ih, buckets_filter, buckets_succ,
      List.append_assoc]

theorem reorder_entries (collection : Collection) :
    collection.reorder.entries =
      buckets (fun entry => entry.2.rdependsCount) (maxDepth collection.entries) collection.entries := by
  rw [Collection.reorder]
  dsimp only
  rw [moveToHead_eq, List.append_nil, readd_eq, List.append_nil]

theorem le_maxDepth (entries : LifDict LifInterface) : ∀ entry ∈ entries, entry.2.rdependsCount ≤ maxDepth entries := by
  have general (entries : LifDict LifInterface) (least : Nat) :
      let deepest := entries.foldl
        (fun maxdepth entry => if entry.2.rdependsCount > maxdepth then entry.2.rdependsCount else maxdepth) least
      least ≤ deepest ∧ ∀ entry ∈ entries, entry.2.rdependsCount ≤ deepest := by
    induction entries generalizing least with
    | nil => exact ⟨Nat.le_refl _, by simp⟩
    | cons entry rest ih =>
      obtain ⟨grown, later⟩ := ih (if entry.2.rdependsCount > least then entry.2.rdependsCount else least)
      rw [List.foldl_cons]
      refine ⟨?_, List.forall_mem_cons.mpr ⟨?_, later⟩⟩
      · refine Nat.le_trans ?_ grown
        split <;> omega
      · refine Nat.le_trans ?_ grown
        split <;> omega
  exact (general entries 0).2

theorem mem_entries {collection : Collection} {i : Str} (known : i ∈ lifDictKeys collection.entries) :
    (i, collection.iface i) ∈ collection.entries := by
  obtain ⟨entry, member, rfl⟩ := List.mem_map.mp known
  rw [Collection.iface, lifDictFind_of_mem collection.distinct member]
  exact member

theorem mem_reorder {collection : Collection} {entry : Str × LifInterface} :
    entry ∈ collection.reorder.entries ↔ entry ∈ collection.entries := by
  rw [reorder_entries]
  exact mem_buckets (le_maxDepth collection.entries)

theorem reorder_iface {collection : Collection} {i : Str} (known : i ∈ lifDictKeys collection.entries) :
    collection.reorder.iface i = collection.iface i := by
  exact iface_of_mem (mem_reorder.mpr (mem_entries known))

theorem mem_reorder_keys {collection : Collection} {i : Str} :
    i ∈ lifDictKeys collection.reorder.entries ↔ i ∈ lifDictKeys collection.entries := by
  simp only [lifDictKeys, List.mem_map, mem_reorder]

theorem iface_reorder {collection : Collection} (x : Str) : collection.reorder.iface x = collection.iface x := by
  by_cases known : x ∈ lifDictKeys collection.entries
  · exact reorder_iface known
  · rw [Collection.iface, Collection.iface, lifDictFind_none.mpr known,
      lifDictFind_none.mpr fun member => known (mem_reorder_keys.mp member)]

end Ifupdown
