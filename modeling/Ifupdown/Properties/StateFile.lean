import Ifupdown.Session.Stanzas

/-! When the state file agrees with what is really configured. -/
namespace Ifupdown

/-- Nothing but a phase of the interface itself fails. When going up, it then must not wait for
itself; when going down, nothing may need it any more. -/
def Call.Orderly (call : Call) : Prop :=
  let G := call.before.collection.graph call.opts
  NoTemplate G call.iface ∧ (∀ f ∈ failures call.events, f = call.iface) ∧
    if call.up then
      failures call.events ≠ [] → ¬ Relation.TransGen (FreeEdge G call.before.count) call.iface call.iface
    else failures call.events = [] → Freed G call.before.count call.iface

section
variable {α : Type} [DecidableEq α] {G : DepGraph α} {c c' : α → Nat} {ev : List (Event α)} {ok : Bool}

/-- Bringing up counts only what it configures, if only the interface itself can fail. -/
theorem up_records (h : Up G [] (.run i l) c ok c' ev) (uncounted : c i = 0) (none : NoTemplate G i)
    (own : ∀ f ∈ failures ev, f = i)
    (acyclic : failures ev ≠ [] → ¬ Relation.TransGen (FreeEdge G c) i i) {x : α}
    (counted : 0 < c' x) : 0 < c x ∨ x ∈ ups ev := by
  cases h with
  | pending loop => cases loop
  | template => exact Or.inl counted
  | stopped _ _ deps =>
    rcases up_blocked deps rfl with ⟨f, fails⟩ | template
    · have failing : f ∈ failures ev := fails ▸ List.mem_singleton.mpr rfl
      have waits := up_failures_fresh deps failing
      rw [own f failing] at waits
      exact absurd List.mem_cons_self waits
    · exact absurd template (noTemplate_deps none)
  | @failed _ _ _ _ ev _ last _ _ deps phases =>
    rw [ups_append, ups_phasesFail phases, Finset.union_empty]
    rcases up_counted deps rfl counted with before | up | pending
    · exact Or.inl before
    · exact Or.inr up
    · -- the interface itself is counted only if something below it requires it
      obtain rfl := List.mem_singleton.mp pending
      have stays := acyclic (by rw [failures_append, failures_phasesFail phases]; simp)
      exfalso
      apply stays
      have grown := up_counts deps rfl x
      have fresh : x ∉ ups ev := fun member => (up_ups_fresh deps member).1 pending
      rw [if_neg fresh] at grown
      by_cases self : x ∈ G.req x
      · exact .single ⟨self, uncounted⟩
      · rw [Task.rest, List.count_eq_zero.mpr self] at grown
        obtain ⟨j, member, edge⟩ := Successors.edges_pos.mp (show 0 < Successors.edges G.req (ups ev) x by omega)
        have reached : Relation.TransGen (FreeEdge G c) x j := by
          refine up_within deps (s := {j | Relation.TransGen (FreeEdge G c) x j}) ?_ (fun _ => Nat.le_refl _)
            (by simp [Task.root]) ?_ .create (up_started deps (Or.inl member))
          · intro k walk d edge zero
            exact walk.tail ⟨edge, zero⟩
          · intro d edge zero
            exact .single ⟨edge, zero⟩
        exact reached.tail ⟨edge, uncounted⟩
  | done fresh ordinary deps =>
    rcases up_counted (.done fresh ordinary deps) rfl counted with before | up | pending
    · exact Or.inl before
    · exact Or.inr up
    · cases pending

/-- Taking down uncounts what it deconfigures, if only the interface itself can fail. -/
theorem down_records (h : Down G [] (.run i l) c ok c' ev) (none : NoTemplate G i)
    (own : ∀ f ∈ failures ev, f = i) (freed : failures ev = [] → Freed G c i) {x : α}
    (counted : 0 < c' x) : 0 < c x ∧ x ∉ downs ev := by
  have low := down_mono h x
  refine ⟨by omega, ?_⟩
  cases h with
  | pending loop => cases loop
  | template => simp
  | failed _ _ phases => simp [downs_phasesFail phases]
  | @stopped _ _ _ _ ev _ _ _ deps =>
    rcases down_blocked deps rfl with ⟨f, fails⟩ | template
    · have failing : f ∈ failures ev := fails ▸ List.mem_singleton.mpr rfl
      have waits := (down_implicit deps .preDown (down_started deps (Or.inr failing))).1
      rw [own f (by simp [failing])] at waits
      exact absurd List.mem_cons_self waits
    · exact absurd template (noTemplate_deps none)
  | done fresh ordinary deps =>
    intro down
    have whole : Down G [] (.run i l) c true _ _ := .done fresh ordinary deps
    rcases down_uncounted whole rfl down with zero | ⟨root, -⟩
    · omega
    · obtain rfl : i = x := by simpa [Task.root] using root
      have zero := freed_uncounted whole (freed (down_success_failures whole rfl))
      omega

end

def RecordedConfigured (records : Str → Option LifStateRecord) (trace : List (Event Str)) : Prop :=
  ∀ x rec, records x = some rec → x ∈ configured ∅ trace

theorem configured_after {w : World} (recorded : RecordedConfigured w.records w.trace)
    (counted : 0 < w.count x) : x ∈ configured ∅ w.trace := by
  have positive : (w.collection.iface x).refcount ≠ 0 := counted.ne'
  exact recorded x _ (by rw [World.records, LifInterface.record, if_neg positive])

theorem up_step {w w' : World} (run : Up (w.collection.graph opts) [] (.run iface iface) w.count ok w'.count ev)
    (evolves : Evolves True [] w w' ev) (uncounted : w.count iface = 0)
    (orderly : (⟨opts, iface, true, w, ok, w''⟩ : Call).Orderly) (trace : w''.trace = w'.trace)
    (recorded : RecordedConfigured w.records w.trace) (counted : 0 < w'.count x) :
    x ∈ configured ∅ w'.trace := by
  obtain ⟨none, own, acyclic⟩ := orderly
  rw [events_eq (trace.trans evolves.trace)] at own acyclic
  rw [evolves.trace, configured_append, up_configured run, Finset.mem_union]
  exact (up_records run uncounted none own acyclic counted).imp_left (configured_after recorded)

theorem call_recorded {call : Call} (made : call.Made interfaces) (orderly : call.Orderly)
    (recorded : RecordedConfigured call.before.records call.before.trace) :
    RecordedConfigured call.after.records call.after.trace := by
  obtain ⟨opts, iface, up, w, ok, w'⟩ := call
  obtain ⟨-, -, -, changed⟩ := made
  dsimp only at changed recorded ⊢
  cases changed with
  | untouched => exact recorded
  | marked counted =>
    intro x rec record
    apply configured_after (w := w) recorded
    rw [← count_markExplicit w iface iface]
    exact records_counted record
  | up _ uncounted run =>
    obtain ⟨ev, run, evolves⟩ := run
    intro x rec record
    exact up_step run evolves uncounted orderly rfl recorded (records_counted record)
  | @upMarked _ w₁ _ uncounted run =>
    obtain ⟨ev, run, evolves⟩ := run
    intro x rec record
    have counted := records_counted record
    rw [count_markExplicit] at counted
    have marked : (w₁.markExplicit iface iface).trace = w₁.trace := rfl
    rw [marked]
    exact up_step run evolves uncounted orderly marked recorded counted
  | down _ counted run =>
    obtain ⟨ev, run, evolves⟩ := run
    obtain ⟨none, own, freed⟩ := orderly
    rw [events_eq evolves.trace] at own freed
    intro x rec record
    obtain ⟨before, left⟩ := down_records run none own freed (records_counted record)
    rw [evolves.trace, configured_append, down_configured run, Finset.mem_sdiff]
    exact ⟨configured_after recorded before, left⟩

/-- As long as each change of an interface is orderly, whatever the saved state counts is
really configured. -/
theorem saved_configured (interfaces : Interfaces) (session : List Invocation)
    (plain : ∀ inv ∈ session, inv.Plain)
    (orderly : ∀ call ∈ sessionCalls interfaces session freshSystem, call.Orderly) :
    ∀ entry ∈ (runSession interfaces session freshSystem).saved.records, 0 < entry.2.refcount →
      entry.1 ∈ configured ∅ (runSession interfaces session freshSystem).trace := by
  obtain ⟨-, recorded⟩ := session_invariant interfaces freshSystem (p := RecordedConfigured)
    sound_empty plain (by intro x rec record; cases record)
    (fun call member made recorded => call_recorded made (orderly call member) recorded)
  intro entry member _
  exact recorded _ _ (lifDictFind_of_mem (StateDict.distinct _) member)

theorem tidy_orderly {call : Call} (tidy : call.Tidy) : call.Orderly := by
  obtain ⟨quiet, none, freed⟩ := tidy
  refine ⟨none, by simp [quiet], ?_⟩
  split
  · exact fun fails => absurd quiet fails
  · rename_i down
    exact fun _ => freed (Bool.eq_false_of_not_eq_true down)

theorem saved_configured_bridge :
    (runSession portBridge [ifup ["br0"], ifdown ["br0"], ifup ["br0"]] freshSystem).saved.records ≠ [] ∧
    ∀ entry ∈ (runSession portBridge [ifup ["br0"], ifdown ["br0"], ifup ["br0"]] freshSystem).saved.records,
      0 < entry.2.refcount → entry.1 ∈
        configured ∅ (runSession portBridge [ifup ["br0"], ifdown ["br0"], ifup ["br0"]] freshSystem).trace := by
  have plain : ∀ inv ∈ [ifup ["br0"], ifdown ["br0"], ifup ["br0"]], inv.Plain := by decide
  have calm : ∀ call ∈ sessionCalls portBridge [ifup ["br0"], ifdown ["br0"], ifup ["br0"]] freshSystem,
      call.Calm := by decide
  refine ⟨by decide, saved_configured portBridge _ plain fun call member => ?_⟩
  exact tidy_orderly (calm_tidy interfacesFile_sane (sessionCalls_made sound_empty plain call member)
    (calm call member))

def brokenPort : Interfaces :=
  interfacesFile [(str "br0", [(str "requires", str "eth0")]), (str "eth0", [(str "up", str "fail")])]
    (by decide) (by decide) (by decide)

theorem saved_unconfigured :
    ¬ ∀ (interfaces : Interfaces) (session : List Invocation),
      (∀ inv ∈ session, inv.Plain) →
      ∀ entry ∈ (runSession interfaces session freshSystem).saved.records, 0 < entry.2.refcount →
        entry.1 ∈ configured ∅ (runSession interfaces session freshSystem).trace := by
  intro claim
  have result := claim brokenPort [ifup ["br0"]] (by decide) (str "eth0", ⟨str "eth0", 1, false⟩)
    (by decide) (by decide)
  revert result
  decide

end Ifupdown
