import Ifupdown.Session.Tally
import Ifupdown.Session.Stanzas

/-! Sessions in which all phases succeed and nothing goes down while it is needed. -/
namespace Ifupdown

open Successors

/-- A call in which all phases succeed, and which takes nothing down that is required by a
configured interface. -/
def Call.Unneeded (interfaces : Interfaces) (call : Call) : Prop :=
  failures call.events = [] ∧ (call.up = false →
    ∀ j ∈ configured ∅ call.before.trace, call.iface ∉ requireIfs (interfaces.collection.iface j))

instance (call : Call) : Decidable (call.Unneeded interfaces) := inferInstanceAs (Decidable (_ ∧ _))

theorem unneeded_tidy {call : Call} (sane : interfaces.Sane) (made : call.Made interfaces)
    (unneeded : call.Unneeded interfaces)
    (tallied : Tallied interfaces.requires (configured ∅ call.before.trace) call.before.records) :
    call.Tidy := by
  obtain ⟨quiet, alone⟩ := unneeded
  refine ⟨quiet, fun d _ => ?_, fun down => ⟨{call.iface}, .root, ?_⟩⟩
  · rw [← (sane d).1]
    exact stanza_isTemplate made.ready.stanza d
  · have exact := tallied_exact tallied call.iface trivial
    have none : edges interfaces.requires (configured ∅ call.before.trace) call.iface = 0 := by
      apply edges_eq_zero.mpr
      intro j member
      rw [sane_requires sane]
      exact alone down j member
    split at exact <;> omega

/-- A record's refcount is one for the interface's own configuration plus one for each configured
interface that requires it, there is a record for each interface so counted, and whatever a
configured interface requires is configured. -/
theorem session_exact (interfaces : Interfaces) (session : List Invocation) (sane : interfaces.Sane)
    (plain : ∀ inv ∈ session, inv.Plain)
    (unneeded : ∀ call ∈ sessionCalls interfaces session freshSystem, call.Unneeded interfaces) :
    let sys := runSession interfaces session freshSystem
    let conf := configured ∅ sys.trace
    (∀ i, sys.refcount i = (if i ∈ conf then 1 else 0) + interfaces.dependents conf i) ∧
    (∀ i, (lifDictFind sys.saved.records i).isSome ↔
      0 < (if i ∈ conf then 1 else 0) + interfaces.dependents conf i) ∧
    ∀ j ∈ conf, ∀ d ∈ requireIfs (interfaces.collection.iface j), d ∈ conf := by
  obtain ⟨sound, exact, closed⟩ := session_invariant interfaces freshSystem
    (p := fun records trace => Tallied interfaces.requires (configured ∅ trace) records) sound_empty plain
    (freshSystem_tallied _)
    (fun call member made tallied =>
      call_tallied made (unneeded_tidy sane made (unneeded call member) tallied) tallied)
  dsimp only
  generalize runSession interfaces session freshSystem = sys at sound exact closed
  have counts (i : Str) : sys.refcount i =
      (if i ∈ configured ∅ sys.trace then 1 else 0) + interfaces.dependents (configured ∅ sys.trace) i := by
    rw [← edges_dependents (sane i).2]
    exact exact i trivial
  refine ⟨counts, fun i => ?_, fun j member d edge => closed j member d ?_⟩
  · rw [← counts i, System.refcount]
    cases found : lifDictFind sys.saved.records i with
    | none => simp [recorded]
    | some rec => simpa [recorded] using sound.counted _ (lifDictFind_mem found)
  · rw [sane_requires sane]
    exact edge

/-- Two ports shared by two bridges, one of which requires itself. -/
def sharedPorts : Interfaces :=
  interfacesFile [(str "br0", [(str "requires", str "eth0 eth1")]),
    (str "br1", [(str "requires", str "eth1 br1 eth2")])] (by decide) (by decide) (by decide)

def sharedPortsSession : List Invocation :=
  [ifup ["br0"], ifup ["br1"], ifdown ["br0"], ifdown ["eth0"]]

theorem session_exact_sharedPorts :
    let sys := runSession sharedPorts sharedPortsSession freshSystem
    let conf := configured ∅ sys.trace
    (∀ i, sys.refcount i = (if i ∈ conf then 1 else 0) + sharedPorts.dependents conf i) ∧
    (∀ i, (lifDictFind sys.saved.records i).isSome ↔
      0 < (if i ∈ conf then 1 else 0) + sharedPorts.dependents conf i) ∧
    ∀ j ∈ conf, ∀ d ∈ requireIfs (sharedPorts.collection.iface j), d ∈ conf :=
  session_exact sharedPorts sharedPortsSession interfacesFile_sane (by decide) (by decide)

end Ifupdown
