import Ifupdown.Properties.TeardownOrder
import Ifupdown.Resolver.VisitOnce

/-! How often one `ifdown` takes an interface down, from any state file. -/
namespace Ifupdown

open Successors

/-- One `ifdown` visits every interface at most once, and none that is not counted, if the counts
cover the dependents that go down; in an acyclic graph a successful one does so only then. -/
theorem teardown_once (env : Env) (opts : LifExecuteOpts) (interfaces : Interfaces) (sys : System)
    (arg iface : Str) (plain : opts.force = false)
    (named : resolveArgument (sys.load interfaces) arg = some iface) :
    ∃ ev, (ifupdownMain env opts interfaces (downCommand arg) sys).2.trace = sys.trace ++ ev ∧
      (Sparing ((sys.load interfaces).collection.graph opts) (sys.load interfaces).count iface →
        VisitsOnce (sys.load interfaces).count iface ev) ∧
      (Acyclic ((sys.load interfaces).collection.graph opts).req → ev ≠ [] →
        (ifupdownMain env opts interfaces (downCommand arg) sys).1 = true →
        VisitsOnce (sys.load interfaces).count iface ev →
        Sparing ((sys.load interfaces).collection.graph opts) (sys.load interfaces).count iface) := by
  rcases result : ifupdownMain env opts interfaces (downCommand arg) sys with ⟨rc, sys'⟩
  rcases downCommand_cases plain named result with rfl | ⟨w', ev, -, -, run, evolves, rfl⟩
  · refine ⟨[], (List.append_nil _).symm, fun _ phase => ⟨List.nodup_nil, by simp⟩, ?_⟩
    intro _ ran
    exact absurd rfl ran
  · refine ⟨ev, evolves.trace, fun sparing => sparing_visitsOnce sparing run, ?_⟩
    intro acyclic _ success once
    obtain rfl : rc = true := success
    exact visitsOnce_sparing acyclic run once

theorem balanced_sparing {interfaces : Interfaces} {sys : System} {opts : LifExecuteOpts} {iface : Str}
    {conf : Finset Str} (plain : opts.force = false) (sane : interfaces.Sane)
    (balanced : interfaces.Balanced conf (sys.load interfaces).count) (counted : 0 < (sys.load interfaces).count iface) :
    Sparing ((sys.load interfaces).collection.graph opts) (sys.load interfaces).count iface := by
  have same := stanza_requires plain (load_stanza sys interfaces)
  have exact : Exact interfaces.requires (fun _ => True) conf (sys.load interfaces).count :=
    fun x _ => balanced_exact balanced x (sane x).2
  have closed : Closed interfaces.requires conf := balanced.closed
  rw [← same] at exact closed
  exact exact_sparing exact closed (exact_counted exact closed trivial counted)

theorem teardown_once_tunnels :
    ∃ ev, (ifupdownMain calm {} tunnels (downCommand (str "tun0")) tunnelUp).2.trace = tunnelUp.trace ++ ev ∧
      VisitsOnce (tunnelUp.load tunnels).count (str "tun0") ev := by
  obtain ⟨ev, trace, once, -⟩ := teardown_once calm {} tunnels tunnelUp (str "tun0") (str "tun0") rfl (by decide)
  exact ⟨ev, trace, once (balanced_sparing rfl interfacesFile_sane tunnelUp_balanced (by decide))⟩

/-- Two bonds over one port, and a bridge over both bonds. -/
def bonds : Interfaces :=
  interfacesFile [(str "br0", [(str "requires", str "bond0 bond1")]), (str "bond0", [(str "requires", str "eth0")]),
    (str "bond1", [(str "requires", str "eth0")]), (str "eth0", [])]
    (by decide) (by decide) (by decide)

/-- A state file without refcounts, in which every interface of `bonds` is up: `lif_state_read`
counts each of them once. -/
def legacySystem : System where
  saved :=
    { records := [str "eth0", str "bond0", str "bond1", str "br0"].map fun name => (name, ⟨name, 1, false⟩)
      distinct := by decide }

theorem teardown_twice :
    ¬ ∀ (env : Env) (opts : LifExecuteOpts) (interfaces : Interfaces) (sys : System) (arg iface : Str),
      opts.force = false → resolveArgument (sys.load interfaces) arg = some iface →
      (ifupdownMain env opts interfaces (downCommand arg) sys).1 = true →
      ∃ ev, (ifupdownMain env opts interfaces (downCommand arg) sys).2.trace = sys.trace ++ ev ∧
        VisitsOnce (sys.load interfaces).count iface ev := by
  intro claim
  obtain ⟨ev, trace, once⟩ := claim calm {} bonds legacySystem (str "br0") (str "br0") rfl (by decide) (by decide)
  have nodup := (once .preDown).1
  rw [show ev = (ifupdownMain calm {} bonds (downCommand (str "br0")) legacySystem).2.trace by
    rw [trace]; exact (List.nil_append ev).symm] at nodup
  revert nodup
  decide

end Ifupdown
