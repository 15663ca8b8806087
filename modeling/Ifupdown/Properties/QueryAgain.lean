import Mathlib.Logic.Relation
import Ifupdown.Model.TokenLoops
import Ifupdown.Resolver.Learning

/-! Asking the executors again. -/
namespace Ifupdown

/-- A successful call of `lif_lifecycle_query_dependents`, in which the executors print these outputs, and
the loop over the names stays inside the buffer. -/
def Asks (outputs : List Str) (iface iface' : LifInterface) : Prop :=
  Contained (suppliedText (requiresText iface.vars) outputs) ∧ ∃ env opts asked asked',
    executorOutputs env opts (buildEnvironment iface) iface.vars asked = some outputs ∧
    lifLifecycleQueryDependents env opts asked iface = some (asked', iface'.vars) ∧
    iface' = { iface with vars := iface'.vars }

variable {outputs : List Str} {iface iface' : LifInterface}

theorem asks_vars (asks : Asks outputs iface iface') :
    let text := strlcpy 4096 (suppliedText (requiresText iface.vars) outputs)
    iface' = { iface with vars := storeRequires iface.vars (finalDeps text) } := by
  obtain ⟨-, env, opts, asked, asked', printed, query, same⟩ := asks
  rw [query_eq, printed, Option.map_some, Option.some_inj, Prod.mk.injEq] at query
  dsimp only
  rw [query.2]
  exact same

/-- Names that have been merged are merged into the same text. -/
theorem finalDeps_again {text : Str} (fits : (suppliedText text outputs).length < 4096) :
    finalDeps (strlcpy 4096 (suppliedText (finalDeps (suppliedText text outputs)) outputs)) =
      finalDeps (suppliedText text outputs) := by
  have short (t : Str) : (strlcpy 4096 t).length < 4096 := by
    rw [strlcpy, List.length_take]
    omega
  have merged : lifTokens (finalDeps (suppliedText text outputs)) = keepWords (lifTokens (suppliedText text outputs)) :=
    finalDeps_words fits
  have whole : strlcpy 4096 (finalDeps (suppliedText text outputs)) = finalDeps (suppliedText text outputs) := by
    rw [finalDeps_eq fits, strlcpy, strlcpy, List.take_take, Nat.min_self]
  obtain ⟨more, supplied, shape⟩ := suppliedText_behind (finalDeps (suppliedText text outputs)) outputs
  obtain ⟨rest, front, words⟩ := strlcpy_behind 4096 (finalDeps (suppliedText text outputs)) shape
  rw [whole, merged] at words
  have printed : outputs.flatMap lifTokens = lifTokens more := by
    have all := suppliedText_words (finalDeps (suppliedText text outputs)) outputs
    rcases shape with rfl | ⟨tail, rfl⟩
    · rw [supplied, List.append_nil] at all
      exact (List.append_cancel_left ((List.append_nil _).trans all)).symm
    · rw [supplied, lifTokens_append _ (by decide) tail] at all
      rw [lifTokens_blank (by decide)]
      exact (List.append_cancel_left all).symm
  have covered : ∀ v ∈ lifTokens rest, ((lifTokens (suppliedText text outputs)).any fun k => strstr k v) = true := by
    intro v member
    rw [List.prefix_iff_eq_take.mp front] at member
    obtain ⟨w, inside, piece⟩ := lifTokens_take _ _ v member
    refine List.any_eq_true.mpr ⟨w, ?_, strstr_prefix piece⟩
    rw [suppliedText_words, printed]
    apply List.mem_append_right
    rcases shape with rfl | ⟨tail, rfl⟩
    · exact inside
    · rw [lifTokens_blank (by decide)]
      exact inside
  rw [finalDeps_eq (short _), supplied, words, keepWords_covered, keepWords_idem, ← finalDeps_eq fits]
  intro v member
  rw [any_keepWords]
  exact covered v member

/-- After one successful query whose texts fit the buffer, further ones leave the variables as they are. -/
theorem query_again (outputs : List Str) (iface iface' iface'' : LifInterface)
    (fits : (suppliedText (requiresText iface.vars) outputs).length < 4096)
    (first : Asks outputs iface iface') (more : Relation.ReflTransGen (Asks outputs) iface' iface'') :
    iface'' = iface' := by
  have whole : strlcpy 4096 (suppliedText (requiresText iface.vars) outputs) =
      suppliedText (requiresText iface.vars) outputs := List.take_of_length_le (by omega)
  have stored := asks_vars first
  dsimp only at stored
  rw [whole] at stored
  induction more with
  | refl => rfl
  | tail _ again same =>
    have later := asks_vars again
    dsimp only at later
    rw [same, stored] at later
    rw [later, stored, requiresText_store, finalDeps_again fits, storeRequires_again]

/-- Every executor prints two ports, the name of one being part of the name of the other. -/
def twoPorts : DependEnv where
  executable _ := true
  answer _ _ _ := some (str "eth10 eth1")

def bondOfPorts : LifInterface :=
  { ifname := str "bond0", vars := [(str "use", .text (str "bond")), (str "requires", .text (str "eth0"))] }

def LifInterface.queried (iface : LifInterface) : LifInterface :=
  match lifLifecycleQueryDependents twoPorts {} 0 iface with
  | some (_, vars) => { iface with vars := vars }
  | none => iface

theorem query_again_bond : bondOfPorts.queried.queried = bondOfPorts.queried := by
  have first : Asks [str "eth10 eth1"] bondOfPorts bondOfPorts.queried :=
    ⟨by decide, twoPorts, {}, 0, 1, by decide, by decide, rfl⟩
  have second : Asks [str "eth10 eth1"] bondOfPorts.queried bondOfPorts.queried.queried :=
    ⟨by decide, twoPorts, {}, 0, 1, by decide, by decide, rfl⟩
  exact query_again [str "eth10 eth1"] bondOfPorts _ _ (by decide) first (.single second)

end Ifupdown
