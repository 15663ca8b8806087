import Ifupdown.Base.Branches
import Ifupdown.Model.Ifquery
import Ifupdown.Resolver.Closure
import Ifupdown.Resolver.Survey

/-! The lines that a dependency graph consists of, once all dependencies are known. -/
namespace Ifupdown

open Successors

variable {env : DependEnv} {opts : LifExecuteOpts} {s t : Survey} {path : List Str} {x token : Str} {parent : Option Str} {fuel : Nat}

def dotStatement (collection : Collection) (statement : Option Str × Str) : Str :=
  dotLine (statement.1.map collection.iface) (collection.iface statement.2)

def edgeStatement (edge : Str × Str) : Option Str × Str := (some edge.1, edge.2)

/-- No executor teaches anything new, and the names that are required are all there. -/
structure Survey.Settled (env : DependEnv) (opts : LifExecuteOpts) (s : Survey) : Prop where
  idle : ∀ x, s.pending x = false
  complete : ∀ x ∈ lifDictKeys s.collection.entries, ∀ d ∈ s.requires x, d ∈ lifDictKeys s.collection.entries
  again : ∀ x ∈ lifDictKeys s.collection.entries, ∀ asked, ∃ asked',
    lifLifecycleQueryDependents env opts asked (s.collection.iface x) = some (asked', s.vars x)

structure Survey.Along (s : Survey) (path : List Str) (t : Survey) : Prop where
  keys : lifDictKeys t.collection.entries = lifDictKeys s.collection.entries
  iface : ∀ x, t.collection.iface x = { s.collection.iface x with isPending := decide (x ∈ path) }

theorem Survey.Settled.along (settled : s.Settled env opts) : s.Along [] s := by
  refine ⟨rfl, fun x => ?_⟩
  have idle : (s.collection.iface x).isPending = false := settled.idle x
  rw [decide_eq_false List.not_mem_nil, ← idle]

theorem collection_ext {a b : Collection} (keys : lifDictKeys a.entries = lifDictKeys b.entries) (same : ∀ x, a.iface x = b.iface x) :
    a = b := by
  have entries (c : Collection) : c.entries = (lifDictKeys c.entries).map fun x => (x, c.iface x) := by
    rw [List.map_map]
    conv_lhs => rw [← List.map_id c.entries]
    refine List.map_congr_left fun entry member => ?_
    rw [Function.comp_apply, iface_of_mem member]
    rfl
  have equal : a.entries = b.entries := by
    rw [entries a, entries b, keys, funext same]
  cases a
  cases b
  cases equal
  rfl

theorem Survey.Along.back (along : s.Along [] t) (idle : ∀ x, s.pending x = false) : t.collection = s.collection := by
  refine collection_ext along.keys fun x => ?_
  have rest : (s.collection.iface x).isPending = false := idle x
  rw [along.iface, decide_eq_false List.not_mem_nil, ← rest]

theorem Survey.Along.enter (along : s.Along path t) (known : x ∈ lifDictKeys s.collection.entries) :
    s.Along (x :: path) (t.setPending x true) := by
  refine ⟨?_, fun y => ?_⟩
  · rw [← along.keys]
    refine write_keys (along.keys ▸ known) ?_
    exact fun _ => rfl
  · rw [Survey.setPending, iface_setPending, along.iface]
    by_cases same : x = y
    · simp [same]
    · simp [same, Ne.symm same]

theorem Survey.Along.leave (along : s.Along (x :: path) t) (known : x ∈ lifDictKeys s.collection.entries) (fresh : x ∉ path) :
    s.Along path (t.setPending x false) := by
  refine ⟨?_, fun y => ?_⟩
  · rw [← along.keys]
    refine write_keys (along.keys ▸ known) ?_
    exact fun _ => rfl
  · rw [Survey.setPending, iface_setPending, along.iface]
    by_cases same : x = y
    · subst same
      simp [fresh]
    · simp [same, Ne.symm same]

theorem Survey.Along.learn (along : s.Along path t) (known : x ∈ lifDictKeys s.collection.entries) (asked : Nat) :
    s.Along path ({ t with asked := asked }.write x (fun iface => { iface with vars := s.vars x }) fun _ => rfl) := by
  refine ⟨?_, fun y => ?_⟩
  · rw [← along.keys]
    refine write_keys (along.keys ▸ known) ?_
    exact fun _ => rfl
  · rw [Survey.write, iface_write, along.iface]
    by_cases same : x = y
    · subst same
      rw [if_pos rfl]
      rfl
    · rw [if_neg same]

theorem Survey.Along.find (along : s.Along path t) (known : x ∈ lifDictKeys s.collection.entries) :
    { t with collection := (lifInterfaceCollectionFind t.collection x).2 } = t := by
  rw [collectionFind_known (along.keys ▸ known)]

theorem dotLine_along (along : s.Along path t) : dotLine (parent.map t.collection.iface) (t.collection.iface x) =
    dotStatement s.collection (parent, x) := by
  have node (y : Str) : dotNode (t.collection.iface y) = dotNode (s.collection.iface y) := by
    rw [along.iface]
    rfl
  unfold dotStatement dotLine
  rw [node]
  cases parent with
  | none => rfl
  | some p =>
    dsimp only [Option.map_some]
    rw [node]

/-- What a call prints and leaves behind, if its line is followed by those for these edges. -/
def Prints (s : Survey) (path : List Str) (result : Option (Str × Survey)) (statements : List (Option Str × Str)) : Prop :=
  ∃ t', result = some (statements.flatMap (dotStatement s.collection), t') ∧ s.Along path t'

theorem dotTokens_draws (print : Survey → Str → Option (Str × Survey)) {tokens : List Str}
    (prints : ∀ {t token}, token ∈ tokens → token ∉ path → s.Along (token :: path) t →
      ∃ es, Draws s.requires (token :: path) token (s.requires token) es ∧
        Prints s (token :: path) (print t token) ((some x, token) :: es.map edgeStatement))
    (known : ∀ token ∈ tokens, token ∈ lifDictKeys s.collection.entries) (along : s.Along path t) :
    ∃ es, Draws s.requires path x tokens es ∧ Prints s path (dotTokens print tokens t) (es.map edgeStatement) := by
  induction tokens generalizing t with
  | nil => exact ⟨[], .nil, t, rfl, along⟩
  | cons token rest ih =>
    obtain ⟨here, later⟩ := List.forall_mem_cons.mp known
    have ih {t : Survey} (along : s.Along path t) := ih (fun member => prints (List.mem_cons_of_mem _ member)) later along
    have pending : (t.collection.iface token).isPending = decide (token ∈ path) := by
      rw [along.iface]
    unfold dotTokens
    rw [along.find here]
    dsimp only
    rw [pending]
    by_cases again : token ∈ path
    · rw [if_pos (decide_eq_true again)]
      obtain ⟨es, draws, printed⟩ := ih along
      exact ⟨es, .skip again draws, printed⟩
    · rw [if_neg (by simp [again])]
      obtain ⟨es, below, t₁, result, along₁⟩ := prints List.mem_cons_self again (along.enter here)
      obtain ⟨es', draws, t₂, rest_, along₂⟩ := ih (along₁.leave here again)
      refine ⟨(x, token) :: (es ++ es'), .cons again below draws, t₂, ?_, along₂⟩
      rw [result]
      dsimp only
      rw [rest_]
      simp [edgeStatement]

theorem printInterfaceDot_draws (parent : Option Str) (settled : s.Settled env opts)
    (known : x ∈ lifDictKeys s.collection.entries) (along : s.Along path t)
    (enough : ((lifDictKeys s.collection.entries).toFinset.filter fun y => y ∉ path).card < fuel) :
    ∃ es, Draws s.requires path x (s.requires x) es ∧
      Prints s path (printInterfaceDot env opts fuel parent t x) ((parent, x) :: es.map edgeStatement) := by
  induction fuel generalizing path t x parent with
  | zero => omega
  | succ fuel ih =>
    obtain ⟨asked, query⟩ := settled.again x known t.asked
    have query : lifLifecycleQueryDependents env opts t.asked (t.collection.iface x) = some (asked, s.vars x) := by
      rw [← query, along.iface]
      rfl
    have learned := along.learn known asked
    unfold printInterfaceDot
    rw [query]
    dsimp only
    generalize entered : ({ t with asked := asked } : Survey).write x (fun iface => { iface with vars := s.vars x }) (fun _ => rfl) = t₁
      at learned
    rw [dotLine_along learned]
    split
    · rename_i none_
      have empty : s.requires x = [] := by
        unfold Survey.requires requireIfs
        rw [show lifDictFind (s.collection.iface x).vars (str "requires") = none from Option.isNone_iff_eq_none.mp none_]
      refine ⟨[], empty ▸ .nil, t₁, ?_, learned⟩
      simp
    · have tokens : requireIfs (t₁.collection.iface x) = s.requires x := by
        rw [learned.iface]
        rfl
      rw [tokens]
      obtain ⟨es, draws, t₂, result, along₂⟩ := dotTokens_draws (x := x) (printInterfaceDot env opts fuel (some x))
        (fun {t token} member fresh along => ih (some x) (settled.complete x known token member) along (by
          have inside : token ∈ (lifDictKeys s.collection.entries).toFinset.filter fun y => y ∉ path := by
            rw [Finset.mem_filter, List.mem_toFinset]
            exact ⟨settled.complete x known token member, fresh⟩
          have erased : ((lifDictKeys s.collection.entries).toFinset.filter fun y => y ∉ token :: path) =
              ((lifDictKeys s.collection.entries).toFinset.filter fun y => y ∉ path).erase token := by
            ext y
            simp only [Finset.mem_filter, Finset.mem_erase, List.mem_cons, not_or]
            tauto
          have positive := Finset.card_pos.mpr ⟨token, inside⟩
          rw [erased, Finset.card_erase_of_mem inside]
          omega))
        (settled.complete x known) learned
      refine ⟨es, draws, t₂, ?_, along₂⟩
      rw [result]
      rfl

end Ifupdown
