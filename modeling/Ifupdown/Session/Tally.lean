import Ifupdown.Session.Calls
import Ifupdown.Resolver.ExactCounts

/-! Exact reference counts over whole sessions. -/
namespace Ifupdown

open Successors

variable {interfaces : Interfaces} {conf : Finset Str}

/-- The names in a `requires` list that `handle_dependents` does not pass over. -/
def Interfaces.requires (interfaces : Interfaces) : Str → List Str := (interfaces.collection.graph {}).req

theorem graph_plain (plain : opts.force = false) (collection : Collection) :
    collection.graph opts = collection.graph {} := by
  unfold Collection.graph Collection.usable
  rw [plain]

theorem stanza_requires {collection : Collection} (plain : opts.force = false)
    (same : ∀ x, (collection.iface x).stanza = (interfaces.collection.iface x).stanza) :
    (collection.graph opts).req = Interfaces.requires interfaces := by
  rw [graph_plain plain, Interfaces.requires]
  exact stanza_req same {}

/-- The interfaces file has neither templates nor configuration errors. -/
def Interfaces.Sane (interfaces : Interfaces) : Prop :=
  ∀ x, (interfaces.collection.iface x).isTemplate = false ∧
    (interfaces.collection.iface x).hasConfigError = false

theorem sane_req (sane : Interfaces.Sane interfaces) (opts : LifExecuteOpts) :
    (interfaces.collection.graph opts).req = fun i => requireIfs (interfaces.collection.iface i) := by
  funext i
  refine List.filter_eq_self.mpr fun d _ => ?_
  rw [Collection.usable, (sane d).2]
  rfl

theorem sane_requires (sane : Interfaces.Sane interfaces) (i : Str) :
    interfaces.requires i = requireIfs (interfaces.collection.iface i) := congrFun (sane_req sane {}) i

theorem requires_nodup (interfaces : Interfaces) (i : Str) : (interfaces.requires i).Nodup := by
  refine List.Nodup.filter _ ?_
  unfold Collection.iface
  cases found : lifDictFind interfaces.collection.entries i with
  | none =>
    rw [Option.getD_none, requireIfs_init]
    exact List.nodup_nil
  | some interface => exact interfaces.deduplicated _ (lifDictFind_mem found)

theorem mem_requires (usable : (interfaces.collection.iface d).hasConfigError = false) :
    d ∈ Interfaces.requires interfaces i ↔ d ∈ requireIfs (interfaces.collection.iface i) := by
  simp [Interfaces.requires, Collection.graph, Collection.usable, usable]

theorem requires_usable (member : d ∈ Interfaces.requires interfaces i) :
    (interfaces.collection.iface d).hasConfigError = false := by
  have usable := (List.mem_filter.mp member).2
  simpa [Collection.usable] using usable

/-- The number of interfaces in `conf` whose `requires` list names `i`. -/
def Interfaces.dependents (interfaces : Interfaces) (conf : Finset Str) (i : Str) : Nat :=
  (conf.filter fun j => i ∈ requireIfs (interfaces.collection.iface j)).card

theorem edges_dependents (usable : (interfaces.collection.iface i).hasConfigError = false) :
    edges interfaces.requires conf i = interfaces.dependents conf i := by
  rw [edges_eq_card fun j _ => requires_nodup interfaces j, Interfaces.dependents]
  simp only [mem_requires usable]

/-- Exact reference counting, for the interfaces that `handle_dependents` does not pass over:
an interface is counted for its own configuration and for its configured dependents, and
the dependencies of configured interfaces are configured. -/
structure Interfaces.Balanced (interfaces : Interfaces) (conf : Finset Str) (count : Str → Nat) : Prop where
  counts : ∀ i, (interfaces.collection.iface i).hasConfigError = false →
    count i = (if i ∈ conf then 1 else 0) + interfaces.dependents conf i
  closed : ∀ j ∈ conf, ∀ d ∈ interfaces.requires j, d ∈ conf

theorem balanced_exact {count : Str → Nat} (balanced : interfaces.Balanced conf count) :
    Exact interfaces.requires (fun i => (interfaces.collection.iface i).hasConfigError = false) conf count := by
  intro i usable
  rw [edges_dependents usable]
  exact balanced.counts i usable

def recorded (record : Option LifStateRecord) : Nat := record.elim 0 LifStateRecord.refcount

theorem recorded_records (w : World) : (fun x => recorded (w.records x)) = w.count := by
  funext x
  unfold World.records LifInterface.record World.count
  split
  · rename_i zero
    rw [zero]
    rfl
  · rfl

def System.refcount (sys : System) (i : Str) : Nat := recorded (lifDictFind sys.saved.records i)

theorem load_count {sys : System} (sound : sys.saved.Sound) (interfaces : Interfaces) :
    (sys.load interfaces).count = sys.refcount := by
  rw [← recorded_records, load_records sound]
  rfl

/-- Recorded counts are exact, and what configured interfaces require is configured. -/
def Tallied (req : Str → List Str) (conf : Finset Str) (records : Str → Option LifStateRecord) : Prop :=
  Exact req (fun _ => True) conf (fun x => recorded (records x)) ∧ Closed req conf

theorem tallied_exact {w : World} {req : Str → List Str} (tallied : Tallied req conf w.records) :
    Exact req (fun _ => True) conf w.count := by
  rw [← recorded_records]
  exact tallied.1

/-- All phases succeed, and what goes down takes all that needs it along. -/
def Call.Tidy (call : Call) : Prop :=
  let G := call.before.collection.graph call.opts
  failures call.events = [] ∧ NoTemplate G call.iface ∧ (call.up = false → Freed G call.before.count call.iface)

theorem tallied_up {w w' : World} {req : Str → List Str} {conf : Finset Str}
    (run : Follows Up opts True [] (.run iface iface) w ok w') (same : (w.collection.graph opts).req = req)
    (tallied : Tallied req (configured conf w.trace) w.records) (uncounted : w.count iface = 0)
    (none : NoTemplate (w.collection.graph opts) iface) (quiet : failures (w'.trace.drop w.trace.length) = []) :
    Tallied req (configured conf w'.trace) w'.records := by
  obtain ⟨ev, run, evolves⟩ := run
  obtain ⟨exact, closed⟩ := tallied
  subst same
  rw [evolves.trace, List.drop_left] at quiet
  rw [recorded_records] at exact
  rw [Tallied, recorded_records, evolves.trace, configured_append]
  rcases up_quiet run none quiet with rfl | ⟨counts, rfl⟩
  · rw [up_configured run]
    exact ⟨up_exact run exact (fun _ _ _ => trivial) trivial uncounted,
      up_closed run exact closed (fun _ _ _ => trivial)⟩
  · rw [counts]
    exact ⟨exact, closed⟩

theorem tallied_down {w w' : World} {req : Str → List Str} {conf : Finset Str}
    (run : Follows Down opts True [] (.run iface iface) w ok w') (same : (w.collection.graph opts).req = req)
    (tallied : Tallied req (configured conf w.trace) w.records) (counted : 0 < w.count iface)
    (none : NoTemplate (w.collection.graph opts) iface) (quiet : failures (w'.trace.drop w.trace.length) = [])
    (freed : Freed (w.collection.graph opts) w.count iface) :
    Tallied req (configured conf w'.trace) w'.records := by
  obtain ⟨ev, run, evolves⟩ := run
  obtain ⟨exact, closed⟩ := tallied
  subst same
  rw [evolves.trace, List.drop_left] at quiet
  rw [recorded_records] at exact
  rw [Tallied, recorded_records, evolves.trace, configured_append]
  rcases down_quiet run none quiet with rfl | ⟨counts, rfl⟩
  · have inside := exact_counted exact closed trivial counted
    obtain ⟨-, -, after⟩ := down_exact run exact closed (fun _ _ _ => trivial) inside
    obtain ⟨exact', closed'⟩ := after rfl
    rw [down_configured run]
    refine ⟨exact', fun j member d edge => (closed' j member d edge).resolve_left ?_⟩
    rintro rfl
    have gone := freed_uncounted run freed
    have needed := edges_pos.mpr ⟨j, member, edge⟩
    have left := exact' d trivial
    omega
  · rw [counts]
    exact ⟨exact, closed⟩

theorem tallied_marked {w : World} {req : Str → List Str} {conf : Finset Str}
    (tallied : Tallied req (configured conf w.trace) w.records) :
    Tallied req (configured conf (w.markExplicit iface iface).trace) (w.markExplicit iface iface).records := by
  rw [Tallied, recorded_records] at tallied ⊢
  rw [count_markExplicit]
  exact tallied

/-- A tidy call keeps the counts exact. -/
theorem call_tallied {call : Call} {conf : Finset Str} (made : call.Made interfaces) (tidy : call.Tidy)
    (tallied : Tallied interfaces.requires (configured conf call.before.trace) call.before.records) :
    Tallied interfaces.requires (configured conf call.after.trace) call.after.records := by
  obtain ⟨opts, iface, up, w, ok, w'⟩ := call
  obtain ⟨plain, ready, -, changed⟩ := made
  obtain ⟨quiet, none, freed⟩ := tidy
  have same := stanza_requires plain ready.stanza
  dsimp only at changed tallied ⊢
  cases changed with
  | untouched => exact tallied
  | marked => exact tallied_marked tallied
  | up _ uncounted run => exact tallied_up run same tallied uncounted none quiet
  | upMarked _ uncounted run =>
    exact tallied_marked (tallied_up run same tallied uncounted none quiet)
  | down _ counted run => exact tallied_down run same tallied counted none quiet (freed rfl)

/-- All phases succeed, and at most its own configuration is counted of what goes down. -/
def Call.Calm (call : Call) : Prop :=
  failures call.events = [] ∧ (call.up = true ∨ call.before.count call.iface ≤ 1)

instance (call : Call) : Decidable call.Calm := inferInstanceAs (Decidable (_ ∧ _))

theorem calm_tidy {call : Call} (sane : interfaces.Sane) (made : call.Made interfaces) (calm : call.Calm) :
    call.Tidy := by
  refine ⟨calm.1, fun d _ => ?_, fun down => ⟨{call.iface}, .root, ?_⟩⟩
  · rw [← (sane d).1]
    exact stanza_isTemplate made.ready.stanza d
  · have low := calm.2.resolve_left (by simp [down])
    omega

theorem tallied_balanced {sys : System} (sound : sys.saved.Sound)
    (tallied : Tallied interfaces.requires conf (lifDictFind sys.saved.records)) :
    interfaces.Balanced conf (sys.load interfaces).count where
  counts i usable := by
    rw [← edges_dependents usable, load_count sound]
    exact tallied.1 i trivial
  closed := tallied.2

theorem session_balanced (session : List Invocation) {sys : System} (sane : interfaces.Sane)
    (sound : sys.saved.Sound) (plain : ∀ inv ∈ session, inv.Plain)
    (calm : ∀ call ∈ sessionCalls interfaces session sys, call.Calm)
    (tallied : Tallied interfaces.requires (configured ∅ sys.trace) (lifDictFind sys.saved.records)) :
    (runSession interfaces session sys).saved.Sound ∧
      interfaces.Balanced (configured ∅ (runSession interfaces session sys).trace)
        ((runSession interfaces session sys).load interfaces).count := by
  obtain ⟨sound', tallied'⟩ := session_invariant interfaces sys
    (p := fun records trace => Tallied interfaces.requires (configured ∅ trace) records) sound plain tallied
    (fun call member made tallied => call_tallied made (calm_tidy sane made (calm call member)) tallied)
  exact ⟨sound', tallied_balanced sound' tallied'⟩

end Ifupdown
