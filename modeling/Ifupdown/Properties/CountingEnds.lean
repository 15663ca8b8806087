import Ifupdown.Resolver.Closure
import Ifupdown.Resolver.Queries
import Ifupdown.Resolver.Survey

/-! Counting the dependencies of a collection, whatever they are and whichever executors fail. -/
namespace Ifupdown

/-- The names that executors print are among these. -/
def DependEnv.Prints (env : DependEnv) (names : Finset Str) : Prop :=
  ∀ n path envp output, env.answer n path envp = some output → ∀ w ∈ lifTokens output, w ∈ names

/-- A query about `x` has left its variables, with names that were there or that its executors have printed. -/
def Merged (env : DependEnv) (opts : LifExecuteOpts) (queries : List Query) (collection : Collection) (x : Str) : Prop :=
  ∃ q ∈ queries, q.parent = x ∧ ∃ answer outputs, q.answer env opts = some answer ∧ q.outputs env opts = some outputs ∧
    (collection.iface x).vars = answer.2 ∧
    ∀ name ∈ lifTokens (requiresText answer.2), name ∈ lifTokens (requiresText q.iface.vars) ++ outputs.flatMap lifTokens

section
variable {env : DependEnv} {opts : LifExecuteOpts} {s s' start : Survey} {names : Finset Str}

/-- The names with those that begin one of them, since a buffer may cut a name. -/
def prefixes (names : Finset Str) : Finset Str := names.biUnion fun w => w.inits.toFinset

theorem mem_prefixes {d : Str} : d ∈ prefixes names ↔ ∃ w ∈ names, d <+: w := by
  simp [prefixes]

theorem prints_closed (prints : env.Prints names) {more : Finset Str} (inside : names ⊆ more) : env.Closed opts (prefixes more) := by
  intro asked iface answer query within d member
  rcases query_names query d member with old | ⟨n, path, output, given, w, printed, piece⟩
  · exact within d old
  · exact mem_prefixes.mpr ⟨w, inside (prints n path _ output given w printed), piece⟩

/-- Each entry from the `i`-th on is asked about, also what is added on the way. -/
theorem countEntries_entered {fuel rounds i : Nat} (idle : ∀ x, s.pending x = false)
    (h : countEntries env opts fuel rounds i s = some (true, s')) :
    ∀ x ∈ (lifDictKeys s'.collection.entries).drop i, ∃ q ∈ queriesEntries env opts fuel rounds i s, q.parent = x := by
  induction rounds generalizing i s with
  | zero => cases h
  | succ rounds ih =>
    have steps := (countEntries_steps h).1
    unfold countEntries at h
    unfold queriesEntries
    rcases entry : s.collection.entries[i]? with _ | ⟨name, iface⟩
    · have none : (lifDictKeys s.collection.entries).drop i = [] := by
        rw [List.drop_eq_nil_iff, List.length_map]
        exact List.getElem?_eq_none_iff.mp entry
      rw [entry] at h
      cases h
      rw [none]
      simp
    rw [entry] at h
    dsimp only at h ⊢
    rcases result : countInterfaceRdepends env opts fuel s name iface.rdependsCount with _ | ⟨_ | _, next⟩
    · rw [result] at h
      cases h
    · rw [result] at h
      cases h
    rw [result] at h
    have first : ⟨s, name⟩ ∈ queriesFrom env opts fuel s name iface.rdependsCount := by
      cases fuel with
      | zero => cases result
      | succ fuel =>
        obtain ⟨answer, query, -⟩ := countInterfaceRdepends_enters result (idle name)
        unfold queriesFrom
        rw [if_neg (by rw [idle]; simp), query]
        exact List.mem_cons_self
    have same := (countInterfaceRdepends_steps result).2
    have bound : i + 1 ≤ (lifDictKeys s.collection.entries).length := by
      rw [List.length_map]
      exact (List.getElem?_eq_some_iff.mp entry).1
    have here : (lifDictKeys s'.collection.entries).drop i = name :: (lifDictKeys s'.collection.entries).drop (i + 1) := by
      obtain ⟨more, split⟩ := steps.keys
      rw [← split, List.drop_append_of_le_length (Nat.le_of_succ_le bound), List.drop_append_of_le_length bound, (drop_keys entry).1]
      rfl
    rw [here]
    refine List.forall_mem_cons.mpr ⟨⟨_, List.mem_append_left _ first, rfl⟩, fun x later => ?_⟩
    obtain ⟨q, member, own⟩ := ih (fun x => by rw [same, idle]) h x later
    exact ⟨q, List.mem_append_right _ member, own⟩

end

/-- Two interfaces whose executors name the other one. -/
def mutualNames : DependEnv where
  executable _ := true
  answer _ _ envp := some (if envp.ifname = str "gre1" then str "gre2" else str "gre1")

theorem mutualNames_prints : mutualNames.Prints {str "gre1", str "gre2"} := by
  intro n path envp output answer
  obtain rfl := Option.some_inj.mp answer
  split <;> decide

theorem none_misnamed : ∀ entry ∈ ([] : LifDict LifInterface), entry.2.ifname = entry.1 := List.forall_mem_nil _

def oneTunnel : Collection := (lifInterfaceCollectionFind ⟨[], none_misnamed, List.nodup_nil⟩ (str "gre1")).2

example : (lifLifecycleCountRdepends mutualNames {} 5 ⟨oneTunnel, 0⟩).map (fun result =>
    (result.1, lifDictKeys result.2.collection.entries, requireIfs (result.2.collection.iface (str "gre2")))) =
      some (some 2, [str "gre2", str "gre1"], [str "gre1"]) := by
  decide +kernel

end Ifupdown
