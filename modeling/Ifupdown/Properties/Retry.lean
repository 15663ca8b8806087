import Ifupdown.Session.Single
import Ifupdown.Session.Stanzas
import Ifupdown.Resolver.RetryUp
import Ifupdown.Resolver.Repeats

/-! A command that fails and is run again. -/
namespace Ifupdown

open Successors

variable {interfaces : Interfaces} {sys : System} {env : Env} {opts : LifExecuteOpts} {iface f : Str}

theorem unskipped_of_failure (name : Name iface) (plain : opts.force = false)
    (able : Able env opts interfaces sys iface)
    (failed : f ∈ failures
      ((ifupdownMain env opts interfaces { up := up, args := [iface] } sys).2.trace.drop sys.trace.length)) :
    if up then (sys.load interfaces).count iface = 0 else 0 < (sys.load interfaces).count iface := by
  rw [single_able name able up] at failed
  rcases result : changeInterface env opts (sys.load interfaces) iface iface up true with ⟨ok, w⟩
  rw [result] at failed
  have changed := changeInterface_changed plain (load_pending sys interfaces) result
  have unmoved : w.trace = sys.trace → False := by
    intro same
    rw [show w.save.trace = w.trace from rfl, same, List.drop_length] at failed
    cases failed
  cases changed with
  | untouched => exact absurd rfl unmoved
  | marked => exact absurd rfl unmoved
  | up _ uncounted | upMarked _ uncounted => exact uncounted
  | down _ counted => exact counted

theorem sane_graph {w : World} (ready : w.Ready interfaces) (sane : interfaces.Sane) (plain : opts.force = false) :
    (w.collection.graph opts).req = fun i => requireIfs (interfaces.collection.iface i) :=
  (stanza_requires plain ready.stanza).trans (sane_req sane {})

theorem ifup_retried (env env' env'' : Env) (name : Name iface) (plain : opts.force = false) (sane : interfaces.Sane)
    (acyclic : Acyclic fun i => requireIfs (interfaces.collection.iface i)) (sound : sys.saved.Sound)
    (failed : f ∈ failures ((ifupdownMain env opts interfaces (upCommand iface) sys).2.trace.drop sys.trace.length))
    (retried : (ifupdownMain env' opts interfaces (upCommand iface)
      (ifupdownMain env opts interfaces (upCommand iface) sys).2).1 = true)
    (single : (ifupdownMain env'' opts interfaces (upCommand iface) sys).1 = true) :
    (∀ i, (ifupdownMain env' opts interfaces (upCommand iface)
        (ifupdownMain env opts interfaces (upCommand iface) sys).2).2.refcount i =
      (ifupdownMain env'' opts interfaces (upCommand iface) sys).2.refcount i) ↔
      f = iface ∧ requireIfs (interfaces.collection.iface iface) = [] ∨
        (requireIfs (interfaces.collection.iface iface)).head? = some f := by
  have able := able_of_failure name sound failed
  have uncounted : (sys.load interfaces).count iface = 0 := unskipped_of_failure name plain able failed
  obtain ⟨ok, w, ev, main, after, trace, explicit, run⟩ := ifup_runs name able plain (sane iface) sound uncounted
  rw [main] at failed retried ⊢
  rw [show w.save.trace = w.trace from rfl, trace, List.drop_left] at failed
  obtain rfl : ok = false := by
    cases ok with
    | false => rfl
    | true =>
      rw [up_success_failures run rfl] at failed
      cases failed
  have req := sane_graph (load_ready sound interfaces) sane plain
  rw [← req] at acyclic
  have sound' : w.save.saved.Sound := ready_sound after
  have waiting := (up_failed_waiting acyclic run).trans uncounted
  have same : (w.save.load interfaces).collection.graph opts = (sys.load interfaces).collection.graph opts := by
    refine reload_graph after (fun x positive => explicit x ?_) fun x zero => load_explicit sound ?_
    · rintro rfl
      exact positive waiting
    · have low := up_mono run x
      omega
  have able' := able_of_success name sound' able.real retried
  obtain ⟨ok', w', ev', main', after', -, -, run'⟩ := ifup_runs name able' plain (sane iface) sound'
    (by rw [reload_count after]; exact waiting)
  have able'' := able_of_success name sound able.real single
  obtain ⟨ok'', w'', ev'', main'', after'', -, -, run''⟩ := ifup_runs name able'' plain (sane iface) sound uncounted
  rw [main'] at retried ⊢
  rw [main''] at single ⊢
  obtain rfl : ok' = true := retried
  obtain rfl : ok'' = true := single
  rw [same, reload_count after] at run'
  have exactly := retry_up acyclic uncounted run failed run' run''
  rw [req] at exactly
  rw [← exactly, ← save_refcount after', ← save_refcount after'']
  exact funext_iff.symm

/-- The condition on a failed `ifdown`, in terms of the states before it and after it. -/
def SpentBy (interfaces : Interfaces) (opts : LifExecuteOpts) (iface : Str) (sys sys' : System) : Prop :=
  (∀ d, sys'.refcount d ≠ sys.refcount d → (interfaces.collection.iface d).isExplicit = false) ∧
    Spent ((sys.load interfaces).collection.graph opts) sys.refcount iface sys'.refcount

def Marked (interfaces : Interfaces) (sys : System) : Prop :=
  ∀ x, 0 < sys.refcount x → (interfaces.collection.iface x).isExplicit = true →
    ((sys.load interfaces).collection.iface x).isExplicit = true

theorem ifdown_retried (env env' env'' : Env) (name : Name iface) (plain : opts.force = false) (sane : interfaces.Sane)
    (acyclic : Acyclic fun i => requireIfs (interfaces.collection.iface i)) (sound : sys.saved.Sound)
    (balanced : interfaces.Balanced (configured ∅ sys.trace) (sys.load interfaces).count)
    (failed : f ∈ failures ((ifupdownMain env opts interfaces (downCommand iface) sys).2.trace.drop sys.trace.length))
    (retried : (ifupdownMain env' opts interfaces (downCommand iface)
      (ifupdownMain env opts interfaces (downCommand iface) sys).2).1 = true)
    (single : (ifupdownMain env'' opts interfaces (downCommand iface) sys).1 = true) :
    let after := (ifupdownMain env opts interfaces (downCommand iface) sys).2
    let same := ∀ i, (ifupdownMain env' opts interfaces (downCommand iface) after).2.refcount i =
      (ifupdownMain env'' opts interfaces (downCommand iface) sys).2.refcount i
    (SpentBy interfaces opts iface sys after → same) ∧
      (Marked interfaces sys → same → SpentBy interfaces opts iface sys after) := by
  have able := able_of_failure name sound failed
  have counted : 0 < (sys.load interfaces).count iface := unskipped_of_failure name plain able failed
  obtain ⟨ok, w, ev, main, after, trace, explicit, run⟩ := ifdown_runs name able plain (sane iface) sound counted
  rw [main] at failed retried ⊢
  rw [show w.save.trace = w.trace from rfl, trace, List.drop_left] at failed
  obtain rfl : ok = false := by
    cases ok with
    | false => rfl
    | true =>
      rw [down_success_failures run rfl] at failed
      cases failed
  have ready := load_ready sound interfaces
  have req := sane_graph ready sane plain
  have sound' : w.save.saved.Sound := ready_sound after
  rw [← req] at acyclic
  have waiting := down_failed_waiting acyclic run
  have able' := able_of_success name sound' able.real retried
  obtain ⟨ok', w', ev', main', after', -, -, run'⟩ := ifdown_runs name able' plain (sane iface) sound'
    (by rw [reload_count after, waiting]; exact counted)
  have able'' := able_of_success name sound able.real single
  obtain ⟨ok'', w'', ev'', main'', after'', -, -, run''⟩ := ifdown_runs name able'' plain (sane iface) sound counted
  dsimp only
  rw [main'] at retried ⊢
  rw [main''] at single ⊢
  obtain rfl : ok' = true := retried
  obtain rfl : ok'' = true := single
  rw [reload_count after] at run'
  have exact : Exact ((sys.load interfaces).collection.graph opts).req (fun _ => True) (configured ∅ sys.trace)
      (sys.load interfaces).count := by
    rw [stanza_requires plain ready.stanza]
    exact fun x _ => balanced_exact balanced x (sane x).2
  have closed : Closed ((sys.load interfaces).collection.graph opts).req (configured ∅ sys.trace) := by
    rw [stanza_requires plain ready.stanza]
    exact balanced.closed
  have inside := exact_counted exact closed trivial counted
  have low := down_mono run
  have unchanged (forgotten : ∀ d, w.count d = 0 → 0 < (sys.load interfaces).count d →
      ((sys.load interfaces).collection.iface d).isExplicit = (interfaces.collection.iface d).isExplicit) :
      (w.save.load interfaces).collection.graph opts = (sys.load interfaces).collection.graph opts := by
    refine reload_graph after (fun x _ => explicit x) fun x zero => ?_
    by_cases before : (sys.load interfaces).count x = 0
    · exact load_explicit sound before
    · exact forgotten x zero (Nat.pos_of_ne_zero before)
  rw [SpentBy, save_refcount after, ← load_count sound]
  have results : (∀ i, w'.save.refcount i = w''.save.refcount i) ↔ w'.count = w''.count := by
    rw [save_refcount after', save_refcount after'']
    exact funext_iff.symm
  rw [results]
  constructor
  · rintro ⟨file, spent⟩
    rw [unchanged] at run'
    · exact retry_down acyclic run run' run'' spent
    · intro d zero positive
      have lowered : w.count d ≠ (sys.load interfaces).count d := by omega
      obtain ⟨s, released, member, -⟩ := spent d lowered
      rw [file d lowered]
      apply released_implicit released member
      rintro rfl
      exact lowered waiting
  · intro marked same
    have file (d : Str) (positive : 0 < (sys.load interfaces).count d)
        (implicit : ((sys.load interfaces).collection.graph opts).explicit d = false) :
        (interfaces.collection.iface d).isExplicit = false := by
      by_contra explicit
      rw [load_count sound] at positive
      have mark := marked d positive (Bool.eq_true_of_not_eq_false explicit)
      exact absurd (implicit.symm.trans mark) (by decide)
    rw [unchanged] at run'
    · have spent := retry_down_spent run'' exact closed inside acyclic low run' waiting same
      refine ⟨fun d lowered => ?_, spent⟩
      obtain ⟨s, released, member, -⟩ := spent d lowered
      have less := low d
      apply file d (by omega)
      apply released_implicit released member
      rintro rfl
      exact lowered waiting
    · intro d zero positive
      have gone : d ∈ downs ev'' := by
        by_contra stays
        have left := exact_left run'' exact closed inside stays (exact_counted exact closed trivial positive)
        have begun := down_prefix run rfl run'' d
        omega
      have implicit : ((sys.load interfaces).collection.graph opts).explicit d = false := by
        apply (down_implicit run'' .preDown (down_started run'' (Or.inl gone))).2.resolve_left
        intro root
        obtain rfl := Option.some.inj root
        omega
      rw [file d positive implicit]
      exact implicit

/-- When a second attempt makes up for a first one in which a phase of `f` failed. -/
def Recoverable (interfaces : Interfaces) (opts : LifExecuteOpts) (up : Bool) (iface f : Str) (sys sys' : System) :
    Prop :=
  if up then f = iface ∧ requireIfs (interfaces.collection.iface iface) = [] ∨
    (requireIfs (interfaces.collection.iface iface)).head? = some f
  else SpentBy interfaces opts iface sys sys'

def repaired : Env := { calm with status := fun _ _ => true }

/-- `br0` needs `eth0` and `eth1`, and `eth0` does not come up at first. -/
def loosePort : Interfaces :=
  interfacesFile [(str "br0", [(str "requires", str "eth0 eth1")]), (str "eth0", [(str "up", str "fail")]),
    (str "eth1", [])] (by decide) (by decide) (by decide)

theorem freshSystem_balanced {interfaces : Interfaces} :
    interfaces.Balanced (configured ∅ freshSystem.trace) (freshSystem.load interfaces).count :=
  tallied_balanced sound_empty (freshSystem_tallied _)

/-- `br0` needs `eth0`, and `br0` itself does not come up at first. -/
def looseBridge : Interfaces :=
  interfacesFile [(str "br0", [(str "requires", str "eth0"), (str "up", str "fail")]), (str "eth0", [])]
    (by decide) (by decide) (by decide)

end Ifupdown
