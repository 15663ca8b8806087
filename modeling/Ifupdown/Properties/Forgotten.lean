import Ifupdown.Resolver.Progress
import Ifupdown.Session.Requests
import Ifupdown.Session.Stanzas

/-! Which configured interfaces an `ifup` leaves in the state file. -/
namespace Ifupdown

def StateDict.Recorded (state : StateDict) (x : Str) : Prop := ∃ k, state.mapped k = some x

theorem recorded_iff {state : StateDict} {x : Str} : state.Recorded x ↔ ∃ entry ∈ state.records, entry.2.mappedIf = x := by
  constructor
  · intro recorded
    obtain ⟨k, record⟩ := recorded
    obtain ⟨rec, found, same⟩ := Option.map_eq_some_iff.mp record
    exact ⟨_, lifDictFind_mem found, same⟩
  · intro recorded
    obtain ⟨entry, member, same⟩ := recorded
    exact ⟨entry.1, by rw [mapped_of_mem member, same]⟩

instance (state : StateDict) (x : Str) : Decidable (state.Recorded x) := decidable_of_iff _ recorded_iff.symm

def Request.events (r : Request) : List (Event Str) := r.result.2.trace.drop r.before.trace.length

/-- The record of the name is not turned from another interface to this one unless that has been taken
down, and no interface loses its last record. -/
def Request.Remembers (r : Request) : Prop :=
  (∀ other, r.before.state.mapped r.lifname = some other → other ≠ r.iface →
    r.result.2.state.mapped r.lifname = some r.iface → ∀ phase ∈ downPhases, other ∈ completed phase r.events) ∧
  ∀ x, r.before.state.Recorded x → r.result.2.state.Recorded x

/-- The name of the call has no record of another interface. -/
def Request.OwnName (r : Request) : Prop := ∀ other, r.before.state.mapped r.lifname = some other → other = r.iface

/-- The lists that an `ifup` counts: all of them, or, if `f` stops it, those that it has come by. -/
def Request.Lists (r : Request) (P : DepGraph Str) : Prop :=
  let G := r.before.collection.graph r.opts
  r.result.1 = true ∧ P = G ∨ r.result.1 = false ∧ ∃ f stack,
    (failures r.events = [f] ∧ G.template f = false ∨ failures r.events = [] ∧ G.template f = true) ∧
      Halts G r.before.count f [] r.iface stack ∧ P = G.upTo stack

def Request.Counts (r : Request) (P : DepGraph Str) (d : Str) : Prop := Posted P true r.before.count r.iface d

/-- What the call writes under its own name, if it goes through, or under the name of a dependency turns no record
to another interface, and each recorded interface has one left. -/
def Request.Keeps (r : Request) (P : DepGraph Str) : Prop :=
  (r.Marks ∨ r.Runs ∧ (r.result.1 = true ∨ r.lifname = r.iface ∧ r.Counts P r.iface) → r.OwnName) ∧
    (r.Runs → ∀ x, r.before.state.Recorded x → r.result.1 = true ∧ x = r.iface ∨
      r.Counts P x ∧ ¬ (r.result.1 = true ∧ x = r.lifname) ∨ ∃ k, r.before.state.mapped k = some x ∧ ¬ r.Counts P k)

theorem Request.Marks.not_runs {r : Request} (marks : r.Marks) : ¬ r.Runs := by
  intro runs
  have skipped := marks.2.1
  rw [runs.2.1] at skipped
  cases skipped

theorem up_events {r : Request} (up : r.up = true) (pending : r.before.Pending []) (x : Str) :
    ¬ ∀ phase ∈ downPhases, x ∈ completed phase r.events := by
  intro down
  have destroyed : x ∈ completed .destroy r.events := down .destroy (by decide)
  have events : ∃ ev, r.result.2.trace = r.before.trace ++ ev ∧ completed .destroy ev = [] := by
    obtain ⟨-, -, same⟩ | ⟨-, same⟩ | ⟨-, ok, w, same, run⟩ := request_cases r pending
    · exact ⟨[], by rw [same, List.append_nil], rfl⟩
    · exact ⟨[], by rw [same, List.append_nil]; rfl, rfl⟩
    · rw [up] at run
      obtain ⟨ev, rises, evolves⟩ := lifLifecycleRun_up pending run
      refine ⟨ev, ?_, up_no_destroy rises⟩
      rw [same, ← evolves.trace]
      dsimp only
      split <;> rfl
  obtain ⟨ev, trace, none⟩ := events
  rw [Request.events, trace, List.drop_left, none] at destroyed
  cases destroyed

theorem mapped_marks {r : Request} (pending : r.before.Pending []) (marks : r.Marks) (k : Str) :
    r.result.2.state.mapped k = if k = r.lifname then some r.iface else r.before.state.mapped k := by
  obtain ⟨-, other, -⟩ | ⟨-, same⟩ | ⟨runs, -⟩ := request_cases r pending
  · exact absurd marks other
  · have books := books_markExplicit r.before r.lifname r.iface
    rw [same, show (r.before.markExplicit r.lifname r.iface).state = _ from congrArg Books.state books]
    exact mapped_mark r.before.books r.lifname r.iface k
  · exact absurd runs marks.not_runs

/-- A bring-up that fails has made an entry for every dependency that it has come by. -/
theorem lifLifecycleRun_failed_posts {w w' : World} (pending : w.Pending [])
    (h : lifLifecycleRun env opts fuel w iface lifname true = some (false, w')) :
    ∃ f stack ev, w'.trace = w.trace ++ ev ∧
      (failures ev = [f] ∧ (w.collection.graph opts).template f = false ∨
        failures ev = [] ∧ (w.collection.graph opts).template f = true) ∧
      Halts (w.collection.graph opts) w.count f [] iface stack ∧
      ∃ names : List Str, w'.books = (names.map (fun d => (d, d))).foldl (Books.post true) w.books ∧
        ∀ d, d ∈ names ↔ Posted ((w.collection.graph opts).upTo stack) true w.count iface d := by
  obtain ⟨names, books, -⟩ := lifLifecycleRun_posts pending rfl (fun _ _ => Nat.le_refl _) h
  rw [ownEntry_false, List.append_nil] at books
  obtain ⟨ev, run, evolves⟩ := lifLifecycleRun_up pending h
  obtain ⟨f, stack, cause, halts, progress⟩ := up_progress run
  refine ⟨f, stack, ev, evolves.trace, cause, halts, names, books, fun d => ?_⟩
  have raised : d ∈ names ↔ w.count d < w'.count d := by
    have counts := count_posts (names.map (fun d => (d, d))) w.books d
    rw [← books] at counts
    rw [show w'.count d = _ from counts, List.filter_map, List.length_map]
    constructor
    · intro listed
      have member : d ∈ names.filter ((fun entry : Str × Str => decide (entry.2 = d)) ∘ fun d => (d, d)) :=
        List.mem_filter.mpr ⟨listed, decide_eq_true rfl⟩
      exact Nat.lt_add_of_pos_right (List.length_pos_of_mem member)
    · intro more
      obtain ⟨e, member⟩ := List.exists_mem_of_length_pos (Nat.pos_of_lt_add_right more)
      obtain ⟨listed, same⟩ := List.mem_filter.mp member
      exact of_decide_eq_true same ▸ listed
  rw [raised, progress.counts d]
  constructor
  · intro more
    have asked : 0 < Successors.edges ((w.collection.graph opts).upTo stack).req (ups ev ∪ (stack.map Prod.fst).toFinset) d := by
      by_cases up : d ∈ ups ev
      · have other : d ≠ iface := by
          rintro rfl
          exact progress.apart d halts.head up
        exact progress.asked (progress.within up) other
      · rw [if_neg up] at more
        omega
    obtain ⟨u, member, edge⟩ := Successors.edges_pos.mp asked
    exact ⟨u, (progress.reached u).mp member, edge⟩
  · rintro ⟨u, walk, edge⟩
    have asked := Successors.edges_pos.mpr ⟨u, (progress.reached u).mpr walk, edge⟩
    omega

/-- The records after a bring-up, for each dependency that is counted and at last for the interface itself. -/
theorem mapped_runs {r : Request} (up : r.up = true) (pending : r.before.Pending []) (runs : r.Runs) :
    ∃ P, r.Lists P ∧ ∀ k, (r.result.1 = true ∧ k = r.lifname → r.result.2.state.mapped k = some r.iface) ∧
      (¬ (r.result.1 = true ∧ k = r.lifname) → (r.Counts P k → r.result.2.state.mapped k = some k) ∧
        (¬ r.Counts P k → r.result.2.state.mapped k = r.before.state.mapped k)) := by
  obtain ⟨other, -⟩ | ⟨marks, -⟩ | ⟨-, ok, w, same, run⟩ := request_cases r pending
  · exact absurd runs other
  · exact absurd runs marks.not_runs
  rw [up] at run same
  cases ok with
  | false =>
    obtain ⟨f, stack, ev, trace, cause, halts, names, books, counted⟩ := lifLifecycleRun_failed_posts pending run
    have result : r.result = (false, w) := by simpa using same
    have state : r.result.2.state = _ := (congrArg (fun result : Bool × World => result.2.state) result).trans (congrArg Books.state books)
    have failed : r.result.1 = false := congrArg Prod.fst result
    refine ⟨_, Or.inr ⟨failed, f, stack, ?_, halts, rfl⟩, fun k => ⟨fun success => ?_, fun _ => ?_⟩⟩
    · rw [Request.events, congrArg Prod.snd result, trace, List.drop_left]
      exact cause
    · rw [failed] at success
      cases success.1
    · rw [state, mapped_names names r.before.books k, Request.Counts, ← counted k]
      exact ⟨fun listed => if_pos listed, fun free => if_neg free⟩
  | true =>
    obtain ⟨names, books, posted⟩ := lifLifecycleRun_up_posts pending run
    rw [List.foldl_append] at books
    have final (k : Str) : w.state.mapped k =
        if k = r.lifname then some r.iface else if k ∈ names then some k else r.before.state.mapped k := by
      rw [show w.state = _ from congrArg Books.state books]
      refine (mapped_post _ r.lifname r.iface k).trans ?_
      rw [mapped_names names r.before.books k]
      rfl
    have after (k : Str) : r.result.2.state.mapped k =
        if k = r.lifname then some r.iface else if k ∈ names then some k else r.before.state.mapped k := by
      rw [same]
      dsimp only
      split
      · have marked := books_markExplicit w r.lifname r.iface
        rw [show (w.markExplicit r.lifname r.iface).state = _ from congrArg Books.state marked, mapped_mark w.books]
        show (if k = r.lifname then some r.iface else w.state.mapped k) = _
        rw [final]
        split <;> rfl
      · exact final k
    have success : r.result.1 = true := congrArg Prod.fst same
    refine ⟨_, Or.inl ⟨success, rfl⟩, fun k => ⟨fun own => ?_, fun other => ?_⟩⟩
    · rw [after, if_pos own.2]
    · rw [after, if_neg fun same => other ⟨success, same⟩, Request.Counts, ← posted k]
      exact ⟨fun listed => if_pos listed, fun free => if_neg free⟩

theorem mapped_idle {r : Request} (pending : r.before.Pending []) (runs : ¬ r.Runs) (marks : ¬ r.Marks) :
    r.result.2.state = r.before.state := by
  obtain ⟨-, -, same⟩ | ⟨other, -⟩ | ⟨other, -⟩ := request_cases r pending
  · rw [same]
  · exact absurd other marks
  · exact absurd other runs

theorem marks_recorded {r : Request} (pending : r.before.Pending []) (marks : r.Marks) (own : r.OwnName) {x : Str}
    (recorded : r.before.state.Recorded x) : r.result.2.state.Recorded x := by
  obtain ⟨k, record⟩ := recorded
  refine ⟨k, ?_⟩
  rw [mapped_marks pending marks]
  split
  · rename_i same
    rw [same] at record
    rw [own x record]
  · exact record

/-- A bring-up keeps all interfaces just when none loses its last record. -/
theorem runs_remembers {r : Request} {P : DepGraph Str} (up : r.up = true) (pending : r.before.Pending []) (runs : r.Runs)
    (after : ∀ k, (r.result.1 = true ∧ k = r.lifname → r.result.2.state.mapped k = some r.iface) ∧
      (¬ (r.result.1 = true ∧ k = r.lifname) → (r.Counts P k → r.result.2.state.mapped k = some k) ∧
        (¬ r.Counts P k → r.result.2.state.mapped k = r.before.state.mapped k))) :
    r.Remembers ↔ r.Keeps P := by
  have idle : ¬ r.Marks := fun marks => marks.not_runs runs
  constructor
  · rintro ⟨turned, kept⟩
    refine ⟨fun active => ?_, fun _ x recorded => ?_⟩
    · have writes := (active.resolve_left idle).2
      intro other record
      by_contra foreign
      refine up_events up pending other (turned other record foreign ?_)
      by_cases success : r.result.1 = true
      · exact (after r.lifname).1 ⟨success, rfl⟩
      · obtain ⟨same, counts⟩ := writes.resolve_left success
        rw [((after r.lifname).2 fun own => success own.1).1 (same ▸ counts), same]
    · obtain ⟨k, record⟩ := kept x recorded
      by_cases own : r.result.1 = true ∧ k = r.lifname
      · rw [(after k).1 own] at record
        exact Or.inl ⟨own.1, (Option.some.inj record).symm⟩
      · obtain ⟨written, left⟩ := (after k).2 own
        by_cases counts : r.Counts P k
        · obtain rfl : k = x := by
            rw [written counts] at record
            exact Option.some.inj record
          exact Or.inr (Or.inl ⟨counts, own⟩)
        · rw [left counts] at record
          exact Or.inr (Or.inr ⟨k, record, counts⟩)
  · rintro ⟨named, kept⟩
    refine ⟨fun other record foreign turned => ?_, fun x recorded => ?_⟩
    · by_cases success : r.result.1 = true
      · exact absurd (named (Or.inr ⟨runs, Or.inl success⟩) other record) foreign
      · obtain ⟨written, left⟩ := (after r.lifname).2 fun own => success own.1
        by_cases counts : r.Counts P r.lifname
        · rw [written counts] at turned
          have same := Option.some.inj turned
          exact absurd (named (Or.inr ⟨runs, Or.inr ⟨same, same ▸ counts⟩⟩) other record) foreign
        · rw [left counts, record] at turned
          exact absurd (Option.some.inj turned) foreign
    · obtain ⟨success, rfl⟩ | ⟨counts, other⟩ | ⟨k, record, free⟩ := kept runs x recorded
      · exact ⟨r.lifname, (after r.lifname).1 ⟨success, rfl⟩⟩
      · exact ⟨x, ((after x).2 other).1 counts⟩
      · refine ⟨k, ?_⟩
        by_cases own : r.result.1 = true ∧ k = r.lifname
        · rw [(after k).1 own]
          rw [own.2] at record
          rw [named (Or.inr ⟨runs, Or.inl own.1⟩) x record]
        · rw [((after k).2 own).2 free, record]

theorem remembers_iff {r : Request} (up : r.up = true) (pending : r.before.Pending []) :
    ∃ P, (r.Runs → r.Lists P) ∧ (r.Remembers ↔ r.Keeps P) := by
  by_cases runs : r.Runs
  · obtain ⟨P, lists, after⟩ := mapped_runs up pending runs
    exact ⟨P, fun _ => lists, runs_remembers up pending runs after⟩
  refine ⟨r.before.collection.graph r.opts, fun active => absurd active runs,
    fun remembers => ⟨fun active => ?_, fun active => absurd active runs⟩, fun keeps => ?_⟩
  · have marks := active.resolve_right fun active => runs active.1
    intro other record
    by_contra foreign
    refine up_events up pending other (remembers.1 other record foreign ?_)
    rw [mapped_marks pending marks, if_pos rfl]
  · by_cases marks : r.Marks
    · have own := keeps.1 (Or.inl marks)
      exact ⟨fun other record foreign => absurd (own other record) foreign, fun x => marks_recorded pending marks own⟩
    · have same := mapped_idle pending runs marks
      refine ⟨fun other record foreign after => ?_, fun x recorded => by rwa [same]⟩
      rw [same, record] at after
      exact absurd (Option.some.inj after) foreign

/-- A wireless card with two networks. -/
def roamingCard : Interfaces :=
  interfacesFile [(str "home", [(str "requires", str "eth0")]), (str "work", []), (str "eth0", [])]
    (by decide) (by decide) (by decide)

def deadNetwork : Interfaces :=
  interfacesFile [(str "home", [(str "requires", str "eth0")]), (str "work", [(str "up", str "fail")]), (str "eth0", [])]
    (by decide) (by decide) (by decide)

def atHome : System := runSession deadNetwork [ifup ["wlan0=home"]] freshSystem

def workRequest : Request := ⟨calm, {}, str "work", str "wlan0", true, true, atHome.load deadNetwork⟩

end Ifupdown
