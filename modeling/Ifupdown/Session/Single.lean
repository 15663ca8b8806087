import Ifupdown.Session.Tally

/-! One command with one interface, from a saved state to the next. -/
namespace Ifupdown

variable {interfaces : Interfaces} {sys : System} {env : Env} {opts : LifExecuteOpts} {iface f : Str}

def World.save (w : World) : System := { saved := w.state, executed := w.executed, trace := w.trace }

theorem counted_known {w : World} (counted : 0 < w.count x) :
    (lifDictFind w.collection.entries x).isSome = true := by
  rw [World.count, Collection.iface] at counted
  cases found : lifDictFind w.collection.entries x with
  | some interface => rfl
  | none =>
    rw [found, Option.getD_none] at counted
    unfold lifInterfaceInit at counted
    split at counted <;> exact absurd counted (Nat.lt_irrefl 0)

/-- A process that can work on `iface`: it may change the system, it gets the lock, and it
finds the interface. -/
structure Able (env : Env) (opts : LifExecuteOpts) (interfaces : Interfaces) (sys : System) (iface : Str) :
    Prop where
  real : opts.mock = false
  locked : acquireStateLock env opts iface = true
  known : resolveArgument (sys.load interfaces) iface = some iface

structure Name (iface : Str) : Prop where
  plain : 61 ∉ iface
  short : iface.length < 4096

theorem Name.split (name : Name iface) : splitAlias iface = (iface, iface) := by
  have whole : iface.take 4095 = iface := List.take_of_length_le (by have := name.short; omega)
  rw [splitAlias_plain name.plain, whole]

theorem resolve_counted {w : World} (ready : w.Ready interfaces) (counted : 0 < w.count iface) :
    resolveArgument w iface = some iface := by
  have positive : (w.collection.iface iface).refcount ≠ 0 := counted.ne'
  unfold resolveArgument lifStateLookup
  rw [ready.synced iface]
  simp only [LifInterface.record, if_neg positive, Collection.iface_ifname, counted_known counted, if_true]

theorem resolve_self {w : World} (name : Name iface) (ready : w.Ready interfaces)
    (resolved : resolveArgument w iface = some other) : other = iface := by
  have same := (resolveArgument_plain ready name.plain resolved).1
  rw [same, name.split]

theorem single_unable (name : Name iface) (sound : sys.saved.Sound) (up : Bool)
    (unable : ¬ Able env opts interfaces sys iface) :
    (ifupdownMain env opts interfaces { up := up, args := [iface] } sys).2 = sys ∧
      (opts.mock = false → (ifupdownMain env opts interfaces { up := up, args := [iface] } sys).1 = false) := by
  unfold ifupdownMain updateStateFileAndExit changeInterfaces
  simp only [Bool.not_false, List.isEmpty_cons, Bool.and_false, Bool.false_eq_true, if_false, changeNamedInterfaces]
  by_cases mock : opts.mock = true
  · rw [if_pos mock]
    exact ⟨rfl, fun real => absurd mock (by simp [real])⟩
  rw [if_neg mock]
  cases resolved : resolveArgument (sys.load interfaces) iface with
  | none => exact ⟨rfl, fun _ => rfl⟩
  | some other =>
    obtain rfl := resolve_self name (load_ready sound interfaces) resolved
    dsimp only
    rw [name.split]
    by_cases locked : acquireStateLock env opts other = true
    · exact absurd ⟨Bool.eq_false_of_not_eq_true mock, locked, resolved⟩ unable
    · unfold changeInterface
      rw [Bool.eq_false_of_not_eq_true locked]
      exact ⟨rfl, fun _ => rfl⟩

theorem single_able (name : Name iface) (able : Able env opts interfaces sys iface) (up : Bool) :
    ifupdownMain env opts interfaces { up := up, args := [iface] } sys =
      ((changeInterface env opts (sys.load interfaces) iface iface up true).1,
        (changeInterface env opts (sys.load interfaces) iface iface up true).2.save) := by
  unfold ifupdownMain updateStateFileAndExit changeInterfaces
  simp only [Bool.not_false, List.isEmpty_cons, Bool.and_false, Bool.false_eq_true, if_false, changeNamedInterfaces,
    able.known, name.split, able.real]
  rcases changeInterface env opts (sys.load interfaces) iface iface up true with ⟨_ | _, w⟩ <;> rfl

theorem able_of_failure (name : Name iface) (sound : sys.saved.Sound)
    (failed : f ∈ failures
      ((ifupdownMain env opts interfaces { up := up, args := [iface] } sys).2.trace.drop sys.trace.length)) :
    Able env opts interfaces sys iface := by
  by_contra unable
  rw [(single_unable name sound up unable).1, List.drop_length] at failed
  cases failed

theorem able_of_success (name : Name iface) (sound : sys.saved.Sound) (real : opts.mock = false)
    (success : (ifupdownMain env opts interfaces { up := up, args := [iface] } sys).1 = true) :
    Able env opts interfaces sys iface := by
  by_contra unable
  rw [(single_unable name sound up unable).2 real] at success
  cases success

theorem changeInterface_up_runs {w : World} (plain : opts.force = false) (locked : acquireStateLock env opts iface = true)
    (ordinary : (w.collection.iface iface).isTemplate = false)
    (usable : (w.collection.iface iface).hasConfigError = false) (uncounted : w.count iface = 0) :
    changeInterface env opts w iface iface true true =
      ((runToEnd env opts w iface iface true).1,
        if (runToEnd env opts w iface iface true).1 then (runToEnd env opts w iface iface true).2.markExplicit iface iface
        else (runToEnd env opts w iface iface true).2) := by
  have zero : (w.collection.iface iface).refcount = 0 := uncounted
  unfold changeInterface skipInterface
  simp only [locked, Bool.not_true, Bool.false_eq_true, if_false, ordinary, usable, plain, zero, Bool.true_and,
    gt_iff_lt, lt_self_iff_false, decide_false, Bool.false_and]
  rcases runToEnd env opts w iface iface true with ⟨_ | _, w'⟩ <;> rfl

theorem changeInterface_down_runs {w : World} (plain : opts.force = false) (locked : acquireStateLock env opts iface = true)
    (ordinary : (w.collection.iface iface).isTemplate = false)
    (usable : (w.collection.iface iface).hasConfigError = false) (counted : 0 < w.count iface) :
    changeInterface env opts w iface iface false true = runToEnd env opts w iface iface false := by
  have positive : ((w.collection.iface iface).refcount == 0) = false := beq_false_of_ne counted.ne'
  unfold changeInterface skipInterface
  simp only [locked, Bool.not_true, Bool.false_eq_true, if_false, ordinary, usable, plain, positive, Bool.false_and,
    Bool.not_false, Bool.true_and]
  rcases runToEnd env opts w iface iface false with ⟨_ | _, w'⟩ <;> rfl

theorem Name.invocation (name : Name iface) (plain : opts.force = false) (up : Bool) :
    (⟨env, opts, { up := up, args := [iface] }⟩ : Invocation).Plain :=
  ⟨plain, fun _ member => List.mem_singleton.mp member ▸ name.plain⟩

theorem load_explicit (sound : sys.saved.Sound) (uncounted : (sys.load interfaces).count x = 0) :
    ((sys.load interfaces).collection.iface x).isExplicit = (interfaces.collection.iface x).isExplicit := by
  rw [World.count, load_iface sound] at uncounted
  rw [load_iface sound]
  cases found : lifDictFind sys.saved.records x with
  | none => rfl
  | some rec =>
    have counted := sound.counted _ (lifDictFind_mem found)
    rw [found] at uncounted
    exact absurd uncounted counted.ne'

theorem reload_records {w : World} (ready : w.Ready interfaces) : (w.save.load interfaces).records = w.records := by
  rw [load_records (ready_sound ready)]
  exact funext ready.synced

theorem reload_count {w : World} (ready : w.Ready interfaces) : (w.save.load interfaces).count = w.count := by
  rw [← recorded_records, ← recorded_records, reload_records ready]

theorem save_refcount {w : World} (ready : w.Ready interfaces) : w.save.refcount = w.count := by
  have sound : w.save.saved.Sound := ready_sound ready
  rw [← reload_count ready, load_count sound]

theorem reload_explicit {w : World} (ready : w.Ready interfaces)
    (file : w.count x = 0 → (w.collection.iface x).isExplicit = (interfaces.collection.iface x).isExplicit) :
    ((w.save.load interfaces).collection.iface x).isExplicit = (w.collection.iface x).isExplicit := by
  have sound := ready_sound ready
  by_cases zero : w.count x = 0
  · rw [file zero]
    apply load_explicit sound
    rw [reload_count ready]
    exact zero
  · have positive : (w.collection.iface x).refcount ≠ 0 := zero
    rw [load_iface sound, show w.save.saved = w.state from rfl, ready.synced x, LifInterface.record, if_neg positive]

theorem graph_explicit {a b : Collection} (stanza : ∀ x, (a.iface x).stanza = (b.iface x).stanza)
    (explicit : ∀ x, (a.iface x).isExplicit = (b.iface x).isExplicit) : a.graph opts = b.graph opts := by
  apply graph_congr
  intro x
  show { (a.iface x).stanza with isExplicit := (a.iface x).isExplicit } = _
  rw [stanza x, explicit x]
  rfl

/-- The next command finds the same graph if what is not up any more is explicit just where the file says so. -/
theorem reload_graph {w : World} (ready : w.Ready interfaces)
    (kept : ∀ x, w.count x ≠ 0 → (w.collection.iface x).isExplicit = ((sys.load interfaces).collection.iface x).isExplicit)
    (forgotten : ∀ x, w.count x = 0 →
      ((sys.load interfaces).collection.iface x).isExplicit = (interfaces.collection.iface x).isExplicit) :
    (w.save.load interfaces).collection.graph opts = (sys.load interfaces).collection.graph opts := by
  have sound : w.save.saved.Sound := ready_sound ready
  apply graph_explicit
  · intro x
    rw [load_stanza, load_stanza]
  · intro x
    by_cases zero : w.count x = 0
    · rw [load_explicit sound (by rw [reload_count ready]; exact zero), forgotten x zero]
    · rw [reload_explicit ready (absurd · zero), kept x zero]

theorem ifup_runs (name : Name iface) (able : Able env opts interfaces sys iface) (plain : opts.force = false)
    (usable : (interfaces.collection.iface iface).isTemplate = false ∧
      (interfaces.collection.iface iface).hasConfigError = false) (sound : sys.saved.Sound) (uncounted : (sys.load interfaces).count iface = 0) :
    ∃ (ok : Bool) (w : World) (ev : List (Event Str)), ifupdownMain env opts interfaces (upCommand iface) sys = (ok, w.save) ∧ w.Ready interfaces ∧
      w.trace = sys.trace ++ ev ∧
      (∀ x, x ≠ iface → (w.collection.iface x).isExplicit = ((sys.load interfaces).collection.iface x).isExplicit) ∧
      Up ((sys.load interfaces).collection.graph opts) [] (.run iface iface) (sys.load interfaces).count ok w.count ev := by
  have ready := load_ready sound interfaces
  have ordinary := (stanza_isTemplate ready.stanza iface).trans usable.1
  have correct := (stanza_hasConfigError ready.stanza iface).trans usable.2
  have main := single_able name able true
  rw [changeInterface_up_runs plain able.locked ordinary correct uncounted] at main
  rcases result : runToEnd env opts (sys.load interfaces) iface iface true with ⟨ok, w⟩
  have follows := runToEnd_up ready.pending result
  have after := follows_up_ready ready name.short follows
  have counted : ok = true → 0 < w.count iface := by
    rintro rfl
    exact follows_up_counted follows
  obtain ⟨ev, run, evolves⟩ := follows
  have explicit (x) : (w.collection.iface x).isExplicit = ((sys.load interfaces).collection.iface x).isExplicit :=
    show (w.collection.iface x).config.isExplicit = _ by rw [evolves.config x]; rfl
  rw [result] at main
  cases ok with
  | false => exact ⟨false, w, ev, main, after, evolves.trace, fun x _ => explicit x, run⟩
  | true =>
    refine ⟨true, w.markExplicit iface iface, ev, main, markExplicit_ready after (counted rfl), evolves.trace, ?_, ?_⟩
    · intro x other
      rw [← explicit x]
      simp only [World.markExplicit, iface_setExplicit, if_neg other.symm]
    · rw [count_markExplicit]
      exact run

theorem ifdown_runs (name : Name iface) (able : Able env opts interfaces sys iface) (plain : opts.force = false)
    (usable : (interfaces.collection.iface iface).isTemplate = false ∧
      (interfaces.collection.iface iface).hasConfigError = false) (sound : sys.saved.Sound) (counted : 0 < (sys.load interfaces).count iface) :
    ∃ (ok : Bool) (w : World) (ev : List (Event Str)), ifupdownMain env opts interfaces (downCommand iface) sys = (ok, w.save) ∧ w.Ready interfaces ∧
      w.trace = sys.trace ++ ev ∧
      (∀ x, (w.collection.iface x).isExplicit = ((sys.load interfaces).collection.iface x).isExplicit) ∧
      Down ((sys.load interfaces).collection.graph opts) [] (.run iface iface) (sys.load interfaces).count ok w.count ev := by
  have ready := load_ready sound interfaces
  have ordinary := (stanza_isTemplate ready.stanza iface).trans usable.1
  have correct := (stanza_hasConfigError ready.stanza iface).trans usable.2
  have main := single_able name able false
  rw [changeInterface_down_runs plain able.locked ordinary correct counted] at main
  rcases result : runToEnd env opts (sys.load interfaces) iface iface false with ⟨ok, w⟩
  have final := runToEnd_eq ready.pending env opts iface iface false
  rw [result] at final
  obtain ⟨ev, run, evolves⟩ := lifLifecycleRun_down ready.pending final
  have follows : Follows Down opts True [] (.run iface iface) (sys.load interfaces) ok w :=
    ⟨ev, run, evolves.imp fun _ => rfl⟩
  rw [result] at main
  refine ⟨ok, w, ev, main, follows_down_ready ready follows, evolves.trace, fun x => ?_, run⟩
  show (w.collection.iface x).config.isExplicit = _
  rw [evolves.config x]
  rfl

end Ifupdown
