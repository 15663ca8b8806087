import Ifupdown.Resolver.BringUp

/-! The order of a bring-up when nothing requires itself. -/
namespace Ifupdown

open Successors

variable {α : Type} [DecidableEq α] {G : DepGraph α} {path : List α} {task : Task α}
  {c c' : α → Nat} {ok : Bool} {ev : List (Event α)}

theorem up_reached (h : Up G path task c ok c' ev) {phase : Phase} {j : α} (member : j ∈ starts phase ev) :
    ∃ n ∈ task.names, Relation.ReflTransGen (Edge G.req) n j := by
  apply up_within h (b := fun _ => 0) (s := {j | ∃ n ∈ task.names, Relation.ReflTransGen (Edge G.req) n j})
    _ (fun _ => Nat.zero_le _) _ _ phase member
  · rintro i ⟨n, named, walk⟩ d edge -
    exact ⟨n, named, walk.tail edge⟩
  · intro i root
    cases task with
    | run iface lifname =>
      obtain rfl := Option.some.inj root
      exact ⟨iface, List.mem_singleton.mpr rfl, .refl⟩
    | deps rest => cases root
  · intro d listed _
    cases task with
    | run iface lifname => cases listed
    | deps rest => exact ⟨d, listed, .refl⟩

/-- The interfaces on the path wait for all names of the task. -/
def Leads (G : DepGraph α) (path : List α) (task : Task α) : Prop :=
  ∀ p ∈ path, ∀ n ∈ task.names, Relation.TransGen (Edge G.req) p n

section
omit [DecidableEq α]

theorem leads_nil : Leads G [] task := by
  intro p waits
  cases waits

theorem Leads.enter (leads : Leads G path (.run i l)) : Leads G (i :: path) (.deps (G.req i)) := by
  intro p waits n edge
  rcases List.mem_cons.mp waits with rfl | waits
  · exact .single edge
  · exact (leads p waits i (List.mem_singleton.mpr rfl)).tail edge

theorem Leads.first (leads : Leads G path (.deps (d :: ds))) : Leads G path (.run d d) := by
  intro p waits n named
  obtain rfl := List.mem_singleton.mp named
  exact leads p waits n List.mem_cons_self

theorem Leads.later (leads : Leads G path (.deps (d :: ds))) : Leads G path (.deps ds) :=
  fun p waits n named => leads p waits n (List.mem_cons_of_mem _ named)

end

/-- Nothing that is entered requires an interface that waits for it. -/
theorem up_apart (acyclic : Acyclic G.req) (h : Up G path task c ok c' ev) (leads : Leads G path task)
    {i d : α} (member : i ∈ starts phase ev) (edge : d ∈ G.req i) : d ∉ path := by
  intro waits
  obtain ⟨n, named, walk⟩ := up_reached h member
  apply acyclic d
  exact ((leads d waits n named).trans_left walk).tail edge

theorem up_apart_root (acyclic : Acyclic G.req) (h : Up G path (.run x l) c ok c' ev)
    {i : α} (member : i ∈ starts phase ev) : x ∉ G.req i := by
  intro edge
  obtain ⟨n, named, walk⟩ := up_reached h member
  obtain rfl := List.mem_singleton.mp named
  apply acyclic n
  exact .tail' walk edge

/-- When an interface is entered, what it requires was counted to begin with or has come up. -/
def DepsFirst (G : DepGraph α) (c : α → Nat) (pre : List (Event α)) (event : Event α) : Prop :=
  ∀ i l, event = .started i l .create → ∀ d ∈ G.req i, 0 < c d ∨ d ∈ ups pre

theorem depsFirst_own (acyclic : Acyclic G.req) (leads : Leads G path (.run i l))
    (deps : Up G (i :: path) (.deps (G.req i)) c true c' ev) (ordered : AtEach (DepsFirst G c) ev)
    (single : ∀ j ∈ starts .create last, j = i) : AtEach (DepsFirst G c) (ev ++ last) := by
  refine AtEach.append.mpr ⟨ordered, AtEach.of_mem ?_⟩
  rintro pre _ member j l rfl d edge
  obtain rfl := single j (mem_starts member)
  have grown := up_counts deps rfl d
  have listed := List.count_pos_iff.mpr edge
  rw [Task.rest] at grown
  rcases up_counted deps rfl (show 0 < c' d by omega) with before | up | waits
  · exact Or.inl before
  · rw [ups_append]
    exact Or.inr (Finset.mem_union_left _ up)
  · exfalso
    rcases List.mem_cons.mp waits with rfl | waits
    · exact acyclic d (.single edge)
    · apply acyclic d
      exact (leads d waits j (List.mem_singleton.mpr rfl)).tail edge

/-- The count that a dependency gets before its own run makes no difference to that run. -/
theorem depsFirst_run (acyclic : Acyclic G.req) (run : Up G path (.run x l) (ref c x) ok c' ev)
    (ordered : AtEach (DepsFirst G (ref c x)) ev) : AtEach (DepsFirst G c) ev := by
  intro pre event post split i l' same d edge
  have started : i ∈ starts .create ev := by
    apply mem_starts (l := l')
    rw [split, ← same]
    exact List.mem_append_right _ List.mem_cons_self
  have other : d ≠ x := by
    rintro rfl
    exact up_apart_root acyclic run started edge
  apply (ordered pre event post split i l' same d edge).imp_left
  rw [ref_apply, if_neg other]
  exact id

theorem up_ordered (acyclic : Acyclic G.req) (h : Up G path task c ok c' ev) (leads : Leads G path task) :
    AtEach (DepsFirst G c) ev := by
  induction h with
  | pending | template | nil => exact AtEach.nil
  | stopped _ _ _ ih => exact ih leads.enter
  | failed _ _ deps phases ih =>
    apply depsFirst_own acyclic leads deps (ih leads.enter)
    intro j member
    have single := (starts_phasesFail .create upPhases_nodup phases).subset member
    simpa [show Phase.create ∈ upPhases by decide] using single
  | done _ _ deps ih =>
    apply depsFirst_own acyclic leads deps (ih leads.enter)
    intro j member
    simpa [starts_succeeded _ _ _ upPhases_nodup, show Phase.create ∈ upPhases by decide] using member
  | @held c path ds d ok c' ev counted _ ih =>
    refine (ih leads.later).mono ?_
    intro pre event supplied i l same x edge
    apply (supplied i l same x edge).imp_left
    intro positive
    rw [ref_apply] at positive
    split at positive
    · rename_i here
      exact here ▸ counted
    · exact positive
  | @raised c path d c₁ ev₁ ds ok c' ev₂ uncounted run rest ihRun ihRest =>
    refine AtEach.append.mpr ⟨depsFirst_run acyclic run (ihRun leads.first), ?_⟩
    intro pre event post split i l same x edge
    rw [ups_append]
    rcases ihRest leads.later pre event post split i l same x edge with positive | up
    · have started : i ∈ starts .create ev₂ := by
        apply mem_starts (l := l)
        rw [split, ← same]
        exact List.mem_append_right _ List.mem_cons_self
      have apart := up_apart acyclic rest leads.later started edge
      rcases up_counted run rfl positive with before | up | waits
      · by_cases here : x = d
        · have up := (up_run_true run).resolve_left (here ▸ apart)
          exact Or.inr (Finset.mem_union_left _ (here ▸ up))
        · rw [ref_apply, if_neg here] at before
          exact Or.inl before
      · exact Or.inr (Finset.mem_union_left _ up)
      · exact absurd waits apart
    · exact Or.inr (Finset.mem_union_right _ up)
  | broken _ run ih => exact depsFirst_run acyclic run (ih leads.first)

end Ifupdown
