import Ifupdown.Session.Forced
import Ifupdown.Session.Stanzas
import Ifupdown.Resolver.RetryDown

/-! What `ifup --force` of an interface that is up already does to the counts. -/
namespace Ifupdown

open Successors

variable {interfaces : Interfaces} {sys : System} {env : Env} {opts : LifExecuteOpts} {iface : Str} {conf : Finset Str}

theorem changeInterface_template {w : World} (template : (w.collection.iface iface).isTemplate = true)
    (pending : w.Pending []) : (changeInterface env opts w iface lifname up updateState).1 = false := by
  unfold changeInterface skipInterface
  split
  · rfl
  · simp only [template, if_true, runToEnd_template pending template]

theorem ordinary_of_success (name : Name iface) (able : Able env opts interfaces sys iface)
    (success : (ifupdownMain env opts interfaces { up := up, args := [iface] } sys).1 = true) :
    (interfaces.collection.iface iface).isTemplate = false := by
  by_contra template
  have loaded := (stanza_isTemplate (load_stanza sys interfaces) iface).trans (Bool.eq_true_of_not_eq_false template)
  rw [single_able name able up, changeInterface_template loaded (load_pending sys interfaces)] at success
  cases success

/-- The counts are exact again for a part of `conf` that `iface` does not belong to. -/
def Interfaces.Unconfigures (interfaces : Interfaces) (conf : Finset Str) (iface : Str) (sys : System) : Prop :=
  ∃ gone ⊆ conf, iface ∈ gone ∧ interfaces.Balanced (conf \ gone) sys.refcount

theorem down_alone {c : Str → Nat} {G : DepGraph Str} (closed : Closed G.req conf) (up : iface ∈ conf)
    (unneeded : ∀ j ∈ conf, iface ∉ G.req j) (run : Down G [] (.run iface l) c true c' ev) :
    c' iface = c iface - 1 := by
  cases run with
  | pending loop => cases loop
  | done _ _ deps =>
    have inner : ∀ i ∈ ({j | j ∈ conf ∧ j ≠ iface} : Set Str), ∀ d ∈ G.req i, d ∈ ({j | j ∈ conf ∧ j ≠ iface} : Set Str) := by
      intro i ⟨member, _⟩ d edge
      exact ⟨closed i member d edge, fun same => unneeded i member (same ▸ edge)⟩
    have names : ∀ d ∈ G.req iface, d ∈ ({j | j ∈ conf ∧ j ≠ iface} : Set Str) :=
      fun d edge => ⟨closed iface up d edge, fun same => unneeded iface up (same ▸ edge)⟩
    rw [unref_self, down_outside deps inner names fun member => member.2 rfl]

theorem unconfigures_alone (unneeded : ∀ j ∈ conf, iface ∉ interfaces.requires j)
    (usable : (interfaces.collection.iface iface).hasConfigError = false)
    (undone : interfaces.Unconfigures conf iface sys) : sys.refcount iface = 0 := by
  obtain ⟨gone, -, out, balanced⟩ := undone
  rw [balanced.counts iface usable, if_neg fun member => (Finset.mem_sdiff.mp member).2 out, Nat.zero_add,
    ← edges_dependents usable, edges_eq_zero]
  intro j member
  exact unneeded j (Finset.mem_sdiff.mp member).1

/-- Forced bring-ups that all succeed leave the counts as they are only if all are dry runs, and
only then does a later teardown undo the configuration. -/
theorem forced_up_counts (interfaces : Interfaces) (sys : System) (iface : Str) (conf : Finset Str)
    (session : List Invocation) (name : Name iface) (sound : sys.saved.Sound)
    (balanced : interfaces.Balanced conf sys.refcount) (up : iface ∈ conf)
    (forces : ∀ inv ∈ session, inv.Forces iface) (success : Succeeds interfaces session sys) :
    ((∀ i, (runSession interfaces session sys).refcount i = sys.refcount i) ↔
      ∀ inv ∈ session, inv.opts.mock = true) ∧
    ∀ (env : Env) (opts : LifExecuteOpts), opts.force = false → opts.mock = false →
      (interfaces.collection.iface iface).hasConfigError = false →
      (∀ j ∈ conf, iface ∉ interfaces.requires j) →
      (ifupdownMain env opts interfaces (downCommand iface) (runSession interfaces session sys)).1 = true →
      (interfaces.Unconfigures conf iface
          (ifupdownMain env opts interfaces (downCommand iface) (runSession interfaces session sys)).2 ↔
        ∀ inv ∈ session, inv.opts.mock = true) := by
  obtain ⟨sound', low, outcome⟩ := forced_up_run name forces sound success
  constructor
  · constructor
    · intro same
      rcases outcome with ⟨dry, -⟩ | ⟨-, more⟩
      · exact dry
      · rw [same iface] at more
        exact absurd more (Nat.lt_irrefl _)
    · intro dry i
      rcases outcome with ⟨-, same⟩ | ⟨⟨inv, member, real⟩, -⟩
      · rw [same]
      · rw [dry inv member] at real
        cases real
  intro env opts plain real usable unneeded undone
  have able : Able env opts interfaces (runSession interfaces session sys) iface :=
    able_of_success name sound' real undone
  have once : 0 < sys.refcount iface := by
    have counts := balanced.counts iface usable
    rw [if_pos up] at counts
    omega
  have counted : 0 < ((runSession interfaces session sys).load interfaces).count iface := by
    rw [load_count sound']
    exact once.trans_le (low iface)
  obtain ⟨ok, w, ev, main, after, -, -, run⟩ := ifdown_runs name able plain
    ⟨ordinary_of_success name able undone, usable⟩ sound' counted
  rw [main] at undone ⊢
  obtain rfl : ok = true := undone
  rw [load_count sound'] at run
  have req := stanza_requires plain (load_stanza (runSession interfaces session sys) interfaces)
  have closed : Closed interfaces.requires conf := balanced.closed
  rcases outcome with ⟨dry, same⟩ | ⟨⟨inv, member, dry⟩, more⟩
  · refine iff_of_true ?_ dry
    have exact := balanced_exact balanced
    rw [← req] at exact closed unneeded
    rw [same] at run exact closed unneeded req
    obtain ⟨subset, -, left⟩ := down_exact run exact closed
      (fun i d edge => requires_usable (req ▸ edge)) up
    obtain ⟨exact', closed'⟩ := left rfl
    refine ⟨downs ev, subset, (down_run_true run).resolve_left List.not_mem_nil, ?_, ?_⟩
    · intro i usable
      rw [save_refcount after, exact' i usable, req, edges_dependents usable]
    · intro j member d edge
      rw [← req] at edge
      refine (closed' j member d edge).resolve_left ?_
      rintro rfl
      exact unneeded j (Finset.mem_sdiff.mp member).1 edge
  · refine iff_of_false ?_ fun all => ?_
    · intro undone
      have gone := unconfigures_alone unneeded usable undone
      rw [← req] at closed unneeded
      have left := down_alone closed up unneeded run
      rw [save_refcount after] at gone
      omega
    · rw [all inv member] at dry
      cases dry

def portBridgeUp : System := runSession portBridge [ifup ["br0"]] freshSystem

theorem portBridgeUp_balanced : portBridgeUp.saved.Sound ∧
    portBridge.Balanced (configured ∅ portBridgeUp.trace) portBridgeUp.refcount := by
  obtain ⟨sound, balanced⟩ := session_balanced [ifup ["br0"]] (interfacesFile_sane : portBridge.Sane) sound_empty
    (by decide) (by decide) (freshSystem_tallied _)
  have counts : (portBridgeUp.load portBridge).count = portBridgeUp.refcount := load_count sound portBridge
  exact ⟨sound, counts ▸ balanced⟩

def again (mock : Bool) : Invocation := ⟨calm, { mock := mock, force := true }, upCommand (str "br0")⟩

theorem forced_up_counts_portBridge :
    (¬ ∀ i, (runSession portBridge [again true, again false] portBridgeUp).refcount i = portBridgeUp.refcount i) ∧
      portBridge.Unconfigures (configured ∅ portBridgeUp.trace) (str "br0")
        (ifupdownMain calm {} portBridge (downCommand (str "br0")) (runSession portBridge [again true] portBridgeUp)).2 := by
  obtain ⟨sound, balanced⟩ := portBridgeUp_balanced
  constructor
  · rw [(forced_up_counts portBridge portBridgeUp (str "br0") _ [again true, again false] ⟨by decide, by decide⟩ sound
      balanced (by decide) (List.forall_mem_cons.mpr ⟨⟨rfl, rfl⟩, List.forall_mem_singleton.mpr ⟨rfl, rfl⟩⟩)
      (by decide)).1]
    decide
  · refine ((forced_up_counts portBridge portBridgeUp (str "br0") _ [again true] ⟨by decide, by decide⟩ sound balanced
      (by decide) (List.forall_mem_singleton.mpr ⟨rfl, rfl⟩) (by decide)).2 calm {} rfl rfl rfl (by decide)
      (by decide)).mpr ?_
    decide

theorem forced_up_miscounts :
    ¬ ∀ (interfaces : Interfaces) (sys : System) (iface : Str) (conf : Finset Str) (session : List Invocation),
      Name iface → sys.saved.Sound → interfaces.Balanced conf sys.refcount → iface ∈ conf →
      (∀ inv ∈ session, inv.Forces iface) → Succeeds interfaces session sys →
      ∀ i, (runSession interfaces session sys).refcount i = sys.refcount i := by
  intro claim
  obtain ⟨sound, balanced⟩ := portBridgeUp_balanced
  have same := claim portBridge portBridgeUp (str "br0") _ [again false] ⟨by decide, by decide⟩ sound balanced (by decide)
    (List.forall_mem_singleton.mpr ⟨rfl, rfl⟩) (by decide) (str "br0")
  revert same
  decide

end Ifupdown
