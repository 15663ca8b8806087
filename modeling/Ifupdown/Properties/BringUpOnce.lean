import Ifupdown.Resolver.Wraparound
import Ifupdown.Session.Stanzas

/-! A single bring-up, whatever the counts, the graph and the failures are. -/
namespace Ifupdown

/-- Bringing up ends, on success and on failure, with no interface pending. It starts each
phase at most once for an interface, and only for its own and for uncounted ones. -/
theorem bringUp_once (env : Env) (opts : LifExecuteOpts) (w : World) (iface lifname : Str)
    (idle : ∀ x, (w.collection.iface x).isPending = false) (roomy : Roomy (w.collection.graph opts) w.count iface) :
    ∃ ok w' ev,
      (∀ fuel, lifecycleFuel w.collection ≤ fuel →
        lifLifecycleRun64 env opts fuel w iface lifname true = some (ok, w')) ∧
      w'.trace = w.trace ++ ev ∧
      (∀ phase, (starts phase ev).Nodup ∧
        ∀ i ∈ starts phase ev, i = iface ∨ (w.collection.iface i).refcount = 0) ∧
      ∀ x, (w'.collection.iface x).isPending = false := by
  have pending : w.Pending [] := idle
  obtain ⟨⟨ok, w'⟩, result⟩ := Option.isSome_iff_exists.mp
    (lifecycleFuel_enough pending env opts iface lifname true)
  obtain ⟨ev, run, evolves⟩ := lifLifecycleRun_up pending result
  refine ⟨ok, w', ev, fun fuel enough => lifLifecycleRun64_eq pending roomy (lifLifecycleRun_mono enough result),
    evolves.trace, fun phase => ?_, evolves.pending⟩
  obtain ⟨distinct, entered⟩ := up_starts_once run phase
  refine ⟨distinct, fun i member => ?_⟩
  rcases (entered i member).2 with root | zero
  · exact Or.inl (Option.some.inj root).symm
  · exact Or.inr zero.1

/-- Three interfaces that require each other, one of them without a stanza. -/
def ring : Interfaces :=
  interfacesFile [(str "a", [(str "requires", str "b c")]), (str "b", [(str "requires", str "a b")])]
    (by decide) (by decide) (by decide)

theorem bringUp_once_ring :
    ∃ ok w' ev,
      (∀ fuel, lifecycleFuel (freshSystem.load ring).collection ≤ fuel →
        lifLifecycleRun64 calm {} fuel (freshSystem.load ring) (str "a") (str "a") true = some (ok, w')) ∧
      w'.trace = (freshSystem.load ring).trace ++ ev ∧
      (∀ phase, (starts phase ev).Nodup ∧ ∀ i ∈ starts phase ev,
        i = str "a" ∨ ((freshSystem.load ring).collection.iface i).refcount = 0) ∧
      ∀ x, (w'.collection.iface x).isPending = false :=
  bringUp_once calm {} (freshSystem.load ring) (str "a") (str "a") (load_pending freshSystem ring)
    (spacious_roomy (by decide) (str "a"))

/-- `x` needs three interfaces that all need `d`. -/
def wideTop : Interfaces :=
  interfacesFile [(str "x", [(str "requires", str "a b c")]), (str "a", [(str "requires", str "d")]),
    (str "b", [(str "requires", str "d")]), (str "c", [(str "requires", str "d")]), (str "d", [])]
    (by decide) (by decide) (by decide)

def nearlyFull : System :=
  { saved := lifStateUpsert StateDict.empty (str "d") { ifname := str "d", refcount := 2 ^ 64 - 2 } }

theorem bringUp_overflows :
    ¬ ∀ (env : Env) (opts : LifExecuteOpts) (w : World) (iface lifname : Str),
      (∀ x, (w.collection.iface x).isPending = false) → w.Bounded → (w.collection.iface iface).refcount = 0 →
      ∃ ok w' ev,
        (∀ fuel, lifecycleFuel w.collection ≤ fuel →
          lifLifecycleRun64 env opts fuel w iface lifname true = some (ok, w')) ∧
        w'.trace = w.trace ++ ev ∧
        (∀ phase, (starts phase ev).Nodup ∧
          ∀ i ∈ starts phase ev, i = iface ∨ (w.collection.iface i).refcount = 0) ∧
        ∀ x, (w'.collection.iface x).isPending = false := by
  intro claim
  have bounded : (nearlyFull.load wideTop).Bounded := by
    intro x
    rw [load_count ⟨by decide, by decide, by decide⟩]
    unfold System.refcount
    cases found : lifDictFind nearlyFull.saved.records x with
    | none => decide
    | some rec =>
      rw [show rec = ⟨str "d", 2 ^ 64 - 2, false⟩ from congrArg Prod.snd (List.mem_singleton.mp (lifDictFind_mem found))]
      decide
  obtain ⟨ok, w', ev, ends, trace, once, -⟩ := claim calm {} (nearlyFull.load wideTop) (str "x") (str "x")
    (load_pending nearlyFull wideTop) bounded (by decide)
  have result := ends _ (Nat.le_refl _)
  have whole : ev = ((lifLifecycleRun64 calm {} (lifecycleFuel (nearlyFull.load wideTop).collection) (nearlyFull.load wideTop)
      (str "x") (str "x") true).elim [] fun r => r.2.trace) := by
    rw [result]
    exact trace.symm
  have entered : str "d" ∈ starts .create ev := by
    rw [whole]
    decide
  rcases (once .create).2 (str "d") entered with own | zero
  · revert own
    decide
  · revert zero
    decide

end Ifupdown
