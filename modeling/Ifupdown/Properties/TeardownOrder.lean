import Ifupdown.Session.Stanzas

/-! The order in which one `ifdown` takes interfaces down, whichever phases fail. -/
namespace Ifupdown

/-- When an interface starts to go down, its configured dependents have completed all of their
down phases. Those that go down with the named interface are not explicit. -/
theorem teardown_ordered (env : Env) (opts : LifExecuteOpts) (interfaces : Interfaces) (sys : System)
    (arg iface : Str) (conf : Finset Str) (plain : opts.force = false)
    (named : resolveArgument (sys.load interfaces) arg = some iface)
    (balanced : interfaces.Balanced conf (sys.load interfaces).count)
    (alone : ∀ j ∈ conf, iface ∉ requireIfs (interfaces.collection.iface j)) :
    ∃ ev, (ifupdownMain env opts interfaces (downCommand arg) sys).2.trace = sys.trace ++ ev ∧
      AtEach (fun pre event => ∀ i lifname, event = .started i lifname .preDown →
        (∀ j ∈ conf, i ∈ requireIfs (interfaces.collection.iface j) →
          ∀ phase ∈ downPhases, j ∈ completed phase pre) ∧
        (i = iface ∨ ((sys.load interfaces).collection.iface i).isExplicit = false)) ev := by
  rcases result : ifupdownMain env opts interfaces (downCommand arg) sys with ⟨rc, sys'⟩
  rcases downCommand_cases plain named result with rfl | ⟨w', ev, usable, counted, run, evolves, rfl⟩
  · exact ⟨[], (List.append_nil _).symm, AtEach.nil⟩
  refine ⟨ev, evolves.trace, ?_⟩
  have same := stanza_requires plain (load_stanza sys interfaces)
  have exact := balanced_exact balanced
  have closed : Closed interfaces.requires conf := balanced.closed
  have used : ∀ i, ∀ d ∈ interfaces.requires i, (interfaces.collection.iface d).hasConfigError = false :=
    fun i d => requires_usable
  rw [stanza_hasConfigError (load_stanza sys interfaces)] at usable
  rw [← same] at exact closed used
  have inside := exact_counted exact closed usable counted
  obtain ⟨-, ordered, -⟩ := down_exact run exact closed used inside
  intro pre event post split i lifname start
  have started : i ∈ starts .preDown ev := by
    apply mem_starts (l := lifname)
    rw [split, ← start]
    exact List.mem_append_right _ List.mem_cons_self
  constructor
  · intro j member edge
    rcases ordered pre event post split i lifname start with rfl | last
    · exact absurd edge (alone j member)
    · have reached : (interfaces.collection.iface i).hasConfigError = false := by
        refine down_within run (s := {x | (interfaces.collection.iface x).hasConfigError = false})
          (fun i _ => used i) ?_ (by simp [Task.rest]) .preDown started
        rintro k ⟨⟩
        exact usable
      apply last j member
      rw [same]
      exact (mem_requires reached).mpr edge
  · rcases (down_implicit run .preDown started).2 with root | implicit
    · exact Or.inl (Option.some.inj root).symm
    · exact Or.inr implicit

/-- Two bridges over one port, and a tunnel over one of them. -/
def tunnels : Interfaces :=
  interfacesFile [(str "br0", [(str "requires", str "eth0 eth1")]), (str "br1", [(str "requires", str "eth0")]),
    (str "tun0", [(str "requires", str "br0")]), (str "eth0", [(str "down", str "fail")]), (str "eth1", [])]
    (by decide) (by decide) (by decide)

def tunnelUp : System := runSession tunnels [ifup ["tun0"]] freshSystem

theorem tunnelUp_balanced :
    tunnels.Balanced (configured ∅ tunnelUp.trace) (tunnelUp.load tunnels).count :=
  (session_balanced [ifup ["tun0"]] interfacesFile_sane sound_empty (by decide) (by decide) (freshSystem_tallied _)).2

theorem teardown_ordered_tunnels :
    ∃ ev, (ifupdownMain calm {} tunnels (downCommand (str "tun0")) tunnelUp).2.trace = tunnelUp.trace ++ ev ∧
      AtEach (fun pre event => ∀ i lifname, event = .started i lifname .preDown →
        (∀ j ∈ configured ∅ tunnelUp.trace, i ∈ requireIfs (tunnels.collection.iface j) →
          ∀ phase ∈ downPhases, j ∈ completed phase pre) ∧
        (i = str "tun0" ∨ ((tunnelUp.load tunnels).collection.iface i).isExplicit = false)) ev :=
  teardown_ordered calm {} tunnels tunnelUp (str "tun0") (str "tun0") _ rfl (by decide) tunnelUp_balanced (by decide)

end Ifupdown
