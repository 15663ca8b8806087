import Ifupdown.Properties.QueryAgain

/-! The names that a query of the executors leaves in the requires variable. -/
namespace Ifupdown

/-- The merged names are those supplied, as they first occur, just if none is part of a name before it. -/
theorem names_merged (env : DependEnv) (opts : LifExecuteOpts) (asked : Nat) (iface : LifInterface)
    (outputs : List Str) (result : Nat × LifDict VarData)
    (printed : executorOutputs env opts (buildEnvironment iface) iface.vars asked = some outputs)
    (fits : (suppliedText (requiresText iface.vars) outputs).length < 4096 ∧ Contained (suppliedText (requiresText iface.vars) outputs))
    (query : lifLifecycleQueryDependents env opts asked iface = some result) :
    let names := lifTokens (requiresText iface.vars) ++ outputs.flatMap lifTokens
    lifTokens (requiresText result.2) = names.eraseDups ↔ ∀ name ∈ names, Uncovered name names := by
  obtain ⟨short, -⟩ := fits
  have whole : strlcpy 4096 (suppliedText (requiresText iface.vars) outputs) =
      suppliedText (requiresText iface.vars) outputs := List.take_of_length_le (by omega)
  rw [query_eq, printed, Option.map_some, Option.some_inj] at query
  have stored : lifTokens (requiresText result.2) =
      keepWords (lifTokens (requiresText iface.vars) ++ outputs.flatMap lifTokens) := by
    rw [← query, requiresText_store, whole, finalDeps_words short, suppliedText_words]
  dsimp only
  rw [stored]
  exact keepWords_eraseDups

/-- A bond that is known to require the shorter one of the names. -/
def bondOfFirstPort : LifInterface :=
  { ifname := str "bond0", vars := [(str "use", .text (str "bond")), (str "requires", .text (str "eth1"))] }

theorem names_merged_bond :
    lifTokens (requiresText bondOfFirstPort.queried.vars) = [str "eth1", str "eth10"] := by
  have merged := names_merged twoPorts {} 0 bondOfFirstPort [str "eth10 eth1"] (1, bondOfFirstPort.queried.vars)
    (by decide) (by decide) (by decide)
  exact (merged.mpr (by decide)).trans (by decide)

theorem names_lost :
    ¬ ∀ (env : DependEnv) (opts : LifExecuteOpts) (asked : Nat) (iface : LifInterface) (outputs : List Str)
      (result : Nat × LifDict VarData),
      executorOutputs env opts (buildEnvironment iface) iface.vars asked = some outputs →
      (suppliedText (requiresText iface.vars) outputs).length < 4096 →
      lifLifecycleQueryDependents env opts asked iface = some result →
      lifTokens (requiresText result.2) =
        (lifTokens (requiresText iface.vars) ++ outputs.flatMap lifTokens).eraseDups := by
  intro claim
  have kept := claim twoPorts {} 0 bondOfPorts [str "eth10 eth1"] (1, bondOfPorts.queried.vars)
    (by decide) (by decide) (by decide)
  revert kept
  decide

end Ifupdown
