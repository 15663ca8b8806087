import Ifupdown.Session.Single
import Ifupdown.Session.Stanzas
import Ifupdown.Resolver.Undo

/-! An `ifdown` right after the `ifup` of the same interface. -/
namespace Ifupdown

open Successors

theorem records_eq {w w' : World} (count : w'.count = w.count)
    (explicit : ∀ x, 0 < w.count x → (w'.collection.iface x).isExplicit = (w.collection.iface x).isExplicit) :
    w'.records = w.records := by
  funext x
  have same : (w'.collection.iface x).refcount = (w.collection.iface x).refcount := congrFun count x
  unfold World.records LifInterface.record
  rw [same]
  split
  · rfl
  · rename_i positive
    rw [explicit x (Nat.pos_of_ne_zero positive), Collection.iface_ifname, Collection.iface_ifname]

/-- `ifup` and then `ifdown` of an interface that is not up leaves records and configuration as
they were, if each configured interface below it is explicit or has a configured dependent. -/
theorem ifup_undone (env : Env) (opts : LifExecuteOpts) (interfaces : Interfaces) (sys : System) (iface : Str)
    (name : Name iface) (plain : opts.force = false) (sane : interfaces.Sane)
    (acyclic : Acyclic fun i => requireIfs (interfaces.collection.iface i)) (sound : sys.saved.Sound)
    (balanced : interfaces.Balanced (configured ∅ sys.trace) (sys.load interfaces).count)
    (absent : iface ∉ configured ∅ sys.trace)
    (implicit : ∀ j, Relation.TransGen (Edge fun i => requireIfs (interfaces.collection.iface i)) iface j →
      j ∉ configured ∅ sys.trace → (interfaces.collection.iface j).isExplicit = false)
    (settled : ∀ j ∈ configured ∅ sys.trace,
      Relation.TransGen (Edge fun i => requireIfs (interfaces.collection.iface i)) iface j →
        ((sys.load interfaces).collection.iface j).isExplicit = true ∨
          ∃ k ∈ configured ∅ sys.trace, j ∈ requireIfs (interfaces.collection.iface k))
    (quiet : failures ((runSession interfaces
      [⟨env, opts, upCommand iface⟩, ⟨env, opts, downCommand iface⟩] sys).trace.drop sys.trace.length) = []) :
    let sys' := runSession interfaces [⟨env, opts, upCommand iface⟩, ⟨env, opts, downCommand iface⟩] sys
    (∀ i, lifDictFind sys'.saved.records i = lifDictFind sys.saved.records i) ∧
      configured ∅ sys'.trace = configured ∅ sys.trace := by
  have requires : interfaces.requires = fun i => requireIfs (interfaces.collection.iface i) := sane_req sane {}
  have ready := load_ready sound interfaces
  have req {w : World} (ready : w.Ready interfaces) := (stanza_requires plain ready.stanza).trans requires
  have ordinary {w : World} (ready : w.Ready interfaces) (x : Str) :
      (w.collection.graph opts).template x = false := (stanza_isTemplate ready.stanza x).trans (sane x).1
  have exact : Exact interfaces.requires (fun _ => True) (configured ∅ sys.trace) (sys.load interfaces).count :=
    fun x _ => balanced_exact balanced x (sane x).2
  have closed : Closed interfaces.requires (configured ∅ sys.trace) := balanced.closed
  have fresh {x : Str} (down : x ∉ configured ∅ sys.trace) : (sys.load interfaces).count x = 0 := by
    by_contra counted
    exact down (exact_counted exact closed trivial (Nat.pos_of_ne_zero counted))
  dsimp only [runSession, List.foldl, runInvocation] at quiet ⊢
  by_cases able : Able env opts interfaces sys iface
  swap
  · rw [upCommand, (single_unable name sound true able).1, downCommand, (single_unable name sound false able).1]
    exact ⟨fun _ => rfl, rfl⟩
  obtain ⟨ok, w, ev, main, after, trace, explicit, up⟩ := ifup_runs name able plain (sane iface) sound (fresh absent)
  rw [main] at quiet ⊢
  have sound' : w.save.saved.Sound := ready_sound after
  have loaded := load_ready sound' interfaces
  obtain rfl : ok = true := by
    have undo : ∀ inv ∈ [(⟨env, opts, downCommand iface⟩ : Invocation)], inv.Plain :=
      List.forall_mem_singleton.mpr (name.invocation plain false)
    obtain ⟨later, extended⟩ := session_extends interfaces sound' undo
    dsimp only [runSession, List.foldl, runInvocation] at extended
    rw [extended, show w.save.trace = w.trace from rfl, trace, List.append_assoc, List.drop_left,
      failures_append, List.append_eq_nil_iff] at quiet
    exact up_successful (ordinary ready) up quiet.1
  have counted : 0 < w.count iface := by
    have raised := up_counts up rfl iface
    rw [if_pos ((up_run_true up).resolve_left List.not_mem_nil)] at raised
    omega
  have marks (x : Str) (other : x ≠ iface) : ((w.save.load interfaces).collection.iface x).isExplicit =
      ((sys.load interfaces).collection.iface x).isExplicit := by
    rw [← explicit x other]
    apply reload_explicit after
    intro zero
    have low := up_mono up x
    rw [explicit x other]
    exact load_explicit sound (by omega)
  rw [← reload_count after] at counted
  obtain ⟨ok', w', ev', main', after', trace', explicit', down⟩ := ifdown_runs name
    ⟨able.real, able.locked, resolve_counted loaded counted⟩ plain (sane iface) sound' counted
  rw [main'] at quiet ⊢
  dsimp only at quiet ⊢
  rw [show w'.save.trace = w'.trace from rfl, trace', show w.save.trace = w.trace from rfl, trace,
    List.append_assoc, List.drop_left, failures_append, List.append_eq_nil_iff] at quiet
  obtain rfl := down_successful (ordinary loaded) down quiet.2
  rw [reload_count after] at down
  rw [← stanza_requires plain ready.stanza] at exact closed
  obtain ⟨undone, counts⟩ := down_undoes_up ((req loaded).trans (req ready).symm) ((req ready).symm ▸ acyclic)
    exact closed (fresh absent) up down
    (by
      intro j below down
      rw [req ready] at below
      have other : j ≠ iface := fun here => acyclic iface (here ▸ below)
      exact (marks j other).trans ((load_explicit sound (fresh down)).trans (implicit j below down)))
    (by
      intro j up below
      rw [req ready] at below ⊢
      have other : j ≠ iface := fun here => acyclic iface (here ▸ below)
      exact (settled j up below).imp_left (marks j other).trans)
  constructor
  · intro i
    rw [show w'.save.saved = w'.state from rfl, after'.synced i, ← load_records sound]
    refine congrFun (records_eq counts fun x positive => ?_) i
    have other : x ≠ iface := by
      rintro rfl
      exact positive.ne' (fresh absent)
    rw [explicit' x, marks x other]
  · have apart := up_fresh up exact (fun _ _ _ => trivial) trivial (fresh absent)
    rw [show w'.save.trace = w'.trace from rfl, trace', show w.save.trace = w.trace from rfl, trace,
      configured_append, configured_append, up_configured up, down_configured down, undone,
      Finset.union_sdiff_cancel_right apart]

/-- Two bridges over one port, and a tunnel over both. -/
def doubleBridge : Interfaces :=
  interfacesFile [(str "tun0", [(str "requires", str "br0 br1")]), (str "br0", [(str "requires", str "eth0 eth1")]),
    (str "br1", [(str "requires", str "eth0 eth1")]), (str "eth0", []), (str "eth1", [])]
    (by decide) (by decide) (by decide)

def portUp : System := runSession doubleBridge [ifup ["eth0"]] freshSystem

theorem ifup_undone_doubleBridge :
    let sys' := runSession doubleBridge [⟨calm, {}, upCommand (str "tun0")⟩, ⟨calm, {}, downCommand (str "tun0")⟩] portUp
    (∀ i, lifDictFind sys'.saved.records i = lifDictFind portUp.saved.records i) ∧
      configured ∅ sys'.trace = configured ∅ portUp.trace := by
  obtain ⟨sound, balanced⟩ := session_balanced [ifup ["eth0"]]
    (interfacesFile_sane : doubleBridge.Sane) sound_empty (by decide) (by decide) (freshSystem_tallied _)
  apply ifup_undone calm {} doubleBridge portUp (str "tun0") ⟨by decide, by decide⟩ rfl interfacesFile_sane
    (acyclic_stanzas [str "tun0", str "br0", str "br1", str "eth0", str "eth1"] (by decide)) sound balanced (by decide)
  · exact fun j _ _ => interfacesFile_implicit j
  · intro j up _
    have marked : ∀ j ∈ configured ∅ portUp.trace,
        ((portUp.load doubleBridge).collection.iface j).isExplicit = true := by decide
    exact Or.inl (marked j up)
  · decide

/-- `eth0` has come up for an interface that is in the file no longer. -/
def orphaned : System where
  saved := ⟨[(str "eth0", ⟨str "eth0", 1, false⟩)], by decide⟩
  trace := succeeded (str "eth0") (str "eth0") upPhases

theorem orphaned_sound : orphaned.saved.Sound := by
  constructor <;> decide

theorem orphaned_tallied :
    Tallied portBridge.requires (configured ∅ orphaned.trace) (lifDictFind orphaned.saved.records) := by
  have only : configured ∅ orphaned.trace = {str "eth0"} := by decide
  have bare : portBridge.requires (str "eth0") = [] := by decide
  rw [Tallied, only]
  constructor
  · intro x _
    have none : edges portBridge.requires {str "eth0"} x = 0 := by
      apply edges_eq_zero.mpr
      intro a member
      rw [Finset.mem_singleton.mp member, bare]
      exact List.not_mem_nil
    rw [none]
    by_cases same : x = str "eth0"
    · subst same
      rfl
    · rw [if_neg (by simpa using same)]
      simp [orphaned, lifDictFind, Ne.symm same, recorded]
  · intro j member d edge
    obtain rfl := Finset.mem_singleton.mp member
    rw [bare] at edge
    cases edge

theorem ifup_not_undone :
    ¬ ∀ (env : Env) (opts : LifExecuteOpts) (interfaces : Interfaces) (sys : System) (iface : Str),
      Name iface → opts.force = false → interfaces.Sane →
      (Acyclic fun i => requireIfs (interfaces.collection.iface i)) → sys.saved.Sound →
      interfaces.Balanced (configured ∅ sys.trace) (sys.load interfaces).count →
      iface ∉ configured ∅ sys.trace →
      (∀ j, Relation.TransGen (Edge fun i => requireIfs (interfaces.collection.iface i)) iface j →
        j ∉ configured ∅ sys.trace → (interfaces.collection.iface j).isExplicit = false) →
      failures ((runSession interfaces
        [⟨env, opts, upCommand iface⟩, ⟨env, opts, downCommand iface⟩] sys).trace.drop sys.trace.length) = [] →
      ∀ i, lifDictFind (runSession interfaces
        [⟨env, opts, upCommand iface⟩, ⟨env, opts, downCommand iface⟩] sys).saved.records i =
          lifDictFind sys.saved.records i := by
  intro claim
  have same := claim calm {} portBridge orphaned (str "br0") ⟨by decide, by decide⟩ rfl interfacesFile_sane
    (acyclic_stanzas [str "br0", str "eth0"] (by decide)) orphaned_sound
    (tallied_balanced orphaned_sound orphaned_tallied) (by decide) (fun j _ _ => interfacesFile_implicit j)
    (by decide) (str "eth0")
  revert same
  decide

end Ifupdown
