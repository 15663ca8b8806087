import Ifupdown.Resolver.BringUp
import Ifupdown.Resolver.TearDown

/-! Exact counts: an interface is counted once for being configured and once for each edge
to it from a configured interface. -/
namespace Ifupdown

open Successors

variable {α : Type} [DecidableEq α] {G : DepGraph α} {path : List α} {task : Task α}
  {c c' : α → Nat} {ok : Bool} {ev : List (Event α)} {p : α → Prop} {conf up : Finset α}
  {owed : α → Nat} {req : α → List α}

def Exact (req : α → List α) (p : α → Prop) (conf : Finset α) (c : α → Nat) : Prop :=
  ∀ x, p x → c x = (if x ∈ conf then 1 else 0) + edges req conf x

/-- What a configured interface requires is configured. -/
def Closed (req : α → List α) (conf : Finset α) : Prop := ∀ j ∈ conf, ∀ d ∈ req j, d ∈ conf

theorem exact_uncounted (exact : Exact req p conf c) (used : p x) (zero : c x = 0) : x ∉ conf := by
  intro member
  have counted := exact x used
  rw [if_pos member] at counted
  omega

theorem exact_counted (exact : Exact req p conf c) (closed : Closed req conf) (used : p x)
    (counted : 0 < c x) : x ∈ conf := by
  by_contra absent
  have same := exact x used
  rw [if_neg absent] at same
  obtain ⟨j, member, edge⟩ := edges_pos.mp (show 0 < edges req conf x by omega)
  exact absent (closed j member x edge)

theorem up_fresh (h : Up G [] (.run i l) c ok c' ev) (exact : Exact G.req p conf c)
    (used : ∀ i, ∀ d ∈ G.req i, p d) (top : p i) (uncounted : c i = 0) : Disjoint conf (ups ev) := by
  refine Finset.disjoint_right.mpr fun j member => ?_
  have entered := up_started h (Or.inl member)
  have zero : c j = 0 := by
    rcases (up_ups_fresh h member).2 with root | zero
    · obtain rfl : i = j := by simpa [Task.root] using root
      exact uncounted
    · exact zero.1
  refine exact_uncounted exact ?_ zero
  rcases up_dependent h entered with root | none | ⟨k, edge, -⟩
  · obtain rfl : i = j := by simpa [Task.root] using root
    exact top
  · cases none
  · exact used k j edge

/-- A successful bring-up keeps the counts exact. -/
theorem up_exact (h : Up G [] (.run i l) c true c' ev) (exact : Exact G.req p conf c)
    (used : ∀ i, ∀ d ∈ G.req i, p d) (top : p i) (uncounted : c i = 0) :
    Exact G.req p (conf ∪ ups ev) c' := by
  have apart := up_fresh h exact used top uncounted
  intro x member
  have grown := up_counts h rfl x
  have before := exact x member
  rw [edges_union apart]
  simp only [Task.rest, List.count_nil, Nat.add_zero] at grown
  by_cases old : x ∈ conf
  · have fresh := Finset.disjoint_left.mp apart old
    rw [if_pos (Finset.mem_union_left _ old)]
    rw [if_pos old] at before
    rw [if_neg fresh] at grown
    omega
  · rw [if_neg old] at before
    by_cases new : x ∈ ups ev
    · rw [if_pos (Finset.mem_union_right _ new)]
      rw [if_pos new] at grown
      omega
    · rw [if_neg (by simp [old, new])]
      rw [if_neg new] at grown
      omega

theorem up_closed (h : Up G [] (.run i l) c true c' ev) (exact : Exact G.req p conf c)
    (closed : Closed G.req conf) (used : ∀ i, ∀ d ∈ G.req i, p d) : Closed G.req (conf ∪ ups ev) := by
  intro j member d edge
  rcases Finset.mem_union.mp member with old | new
  · exact Finset.mem_union_left _ (closed j old d edge)
  · rcases up_counted h rfl (up_dependency_counted h new edge) with before | up | pending
    · exact Finset.mem_union_left _ (exact_counted exact closed (used j d edge) before)
    · exact Finset.mem_union_right _ up
    · cases pending

/-- The counts in the middle of a teardown: the interfaces of `up` are still configured, those
on the path are down but not yet uncounted, and `owed` edges are still to be released. Only
the interface that the command names may be needed by others when it goes. -/
structure Standing (G : DepGraph α) (p : α → Prop) (root : α) (up : Finset α) (path : List α)
    (owed c : α → Nat) : Prop where
  exact : ∀ x, p x → c x = (if x ∈ up ∨ x ∈ path then 1 else 0) + edges G.req up x + owed x
  closed : ∀ x, x ≠ root → 0 < edges G.req up x + owed x → x ∈ up ∨ x ∈ path
  apart : ∀ x ∈ path, x ∉ up

theorem Standing.enter (h : Standing G p root up path owed c) (member : i ∈ up) :
    Standing G p root (up.erase i) (i :: path) (fun x => owed x + (G.req i).count x) c where
  exact x used := by
    have same := h.exact x used
    have split := edges_erase (g := G.req) (x := x) member
    have iff : (x ∈ up.erase i ∨ x ∈ i :: path) ↔ (x ∈ up ∨ x ∈ path) := by
      by_cases here : x = i
      · subst here; simp [member]
      · simp [here]
    simp only [iff]
    omega
  closed x other positive := by
    have split := edges_erase (g := G.req) (x := x) member
    by_cases here : x = i
    · exact Or.inr (here ▸ List.mem_cons_self)
    · rcases h.closed x other (by omega) with up | pending
      · exact Or.inl (Finset.mem_erase.mpr ⟨here, up⟩)
      · exact Or.inr (List.mem_cons_of_mem _ pending)
  apart x pending := by
    rcases List.mem_cons.mp pending with rfl | pending
    · exact Finset.notMem_erase x up
    · exact fun inside => h.apart x pending (Finset.mem_of_mem_erase inside)

theorem Standing.leave (h : Standing G p root up (i :: path) owed c) (fresh : i ∉ path)
    (alone : i = root ∨ edges G.req up i + owed i = 0) :
    Standing G p root up path owed (unref c i) where
  exact x used := by
    have same := h.exact x used
    have gone := h.apart i List.mem_cons_self
    rw [unref_apply]
    by_cases here : x = i
    · subst here
      rw [if_pos (Or.inr List.mem_cons_self)] at same
      rw [if_pos rfl, if_neg (by simp [gone, fresh])]
      omega
    · have iff : (x ∈ up ∨ x ∈ i :: path) ↔ (x ∈ up ∨ x ∈ path) := by simp [here]
      simp only [iff] at same
      rw [if_neg here]
      omega
  closed x other positive := by
    rcases h.closed x other positive with up | pending
    · exact Or.inl up
    · rcases List.mem_cons.mp pending with rfl | pending
      · rcases alone with rfl | zero
        · exact absurd rfl other
        · omega
      · exact Or.inr pending
  apart x pending := h.apart x (List.mem_cons_of_mem _ pending)

theorem Standing.release (h : Standing G p root up path (fun x => owed x + (d :: ds).count x) c) :
    Standing G p root up path (fun x => owed x + ds.count x) (unref c d) where
  exact x used := by
    have same := h.exact x used
    rw [unref_apply]
    simp only [List.count_cons, beq_iff_eq, eq_comm (a := d)] at same
    omega
  closed x other positive := by
    refine h.closed x other ?_
    rw [List.count_cons]
    omega
  apart := h.apart

/-- When an interface goes down, whatever is in `up` and requires it has gone down. -/
def DownLast (G : DepGraph α) (up : Finset α) (pre : List (Event α)) (event : Event α) : Prop :=
  ∀ i l, event = .started i l .preDown → ∀ j ∈ up, i ∈ G.req j →
    ∀ phase ∈ downPhases, j ∈ completed phase pre

theorem downLast_alone {events : List (Event α)} (alone : edges G.req up i = 0)
    (single : ∀ j ∈ starts .preDown events, j = i) : AtEach (DownLast G up) events := by
  apply AtEach.of_mem
  rintro pre _ member k l rfl j inside edge
  obtain rfl := single k (mem_starts member)
  exact absurd edge (edges_eq_zero.mp alone j inside)

theorem downLast_after {first second : List (Event α)}
    (complete : ∀ j ∈ downs first, ∀ phase ∈ downPhases, j ∈ completed phase first)
    (early : AtEach (DownLast G up) first) (late : AtEach (DownLast G (up \ downs first)) second) :
    AtEach (DownLast G up) (first ++ second) := by
  refine AtEach.append.mpr ⟨early, late.mono ?_⟩
  intro pre event ordered i l same j inside edge phase among
  rw [completed_append, List.mem_append]
  by_cases gone : j ∈ downs first
  · exact Or.inl (complete j gone phase among)
  · exact Or.inr (ordered i l same j (Finset.mem_sdiff.mpr ⟨inside, gone⟩) edge phase among)

theorem succeeded_complete (i l : α) :
    ∀ j ∈ downs (succeeded i l downPhases), ∀ phase ∈ downPhases, j ∈ completed phase (succeeded i l downPhases) := by
  intro j member phase among
  rw [downs_succeeded] at member
  rw [completed_succeeded _ _ _ downPhases_nodup, if_pos among]
  exact Finset.mem_singleton.mp member ▸ List.mem_singleton.mpr rfl

theorem down_standing (h : Down G path task c ok c' ev) (used : ∀ i, ∀ d ∈ G.req i, p d)
    (rooted : root ∈ path) (standing : Standing G p root up path (fun x => owed x + task.rest.count x) c)
    (rest : ∀ d ∈ task.rest, p d)
    (top : ∀ i, task.root = some i → p i ∧ (i ∈ path ∨ i ∈ up ∧ c i ≤ 1)) :
    downs ev ⊆ up ∧ AtEach (DownLast G up) ev ∧
      (ok = true → Standing G p root (up \ downs ev) path owed c') := by
  induction h generalizing up owed with
  | pending | nil => exact ⟨by simp, AtEach.nil, fun _ => by simpa [Task.rest] using standing⟩
  | template => exact ⟨by simp, AtEach.nil, by simp⟩
  | @failed path i l ev c fresh _ phases =>
    obtain ⟨member, loop | ⟨inside, low⟩⟩ := top i rfl
    · exact absurd loop fresh
    have same := standing.exact i member
    rw [if_pos (Or.inl inside)] at same
    have alone : edges G.req up i = 0 := by omega
    refine ⟨by simp [downs_phasesFail phases], downLast_alone alone fun j member => ?_, by simp⟩
    have single := (starts_phasesFail .preDown downPhases_nodup phases).subset member
    simpa [show Phase.preDown ∈ downPhases by decide] using single
  | @stopped path i c c' ev l fresh _ _ ih =>
    obtain ⟨member, loop | ⟨inside, low⟩⟩ := top i rfl
    · exact absurd loop fresh
    have same := standing.exact i member
    rw [if_pos (Or.inl inside)] at same
    have alone : edges G.req up i = 0 := by omega
    have entered : Standing G p root up path owed c := by simpa [Task.rest] using standing
    obtain ⟨subset, ordered, -⟩ := ih (List.mem_cons_of_mem _ rooted) (entered.enter inside) (used i)
      (by simp [Task.root])
    refine ⟨?_, downLast_after (succeeded_complete i l) (downLast_alone alone fun j member => ?_) ?_, by simp⟩
    · rw [downs_append, downs_succeeded]
      exact Finset.union_subset (by simpa using inside) (subset.trans (Finset.erase_subset i up))
    · simpa [starts_succeeded _ _ _ downPhases_nodup, show Phase.preDown ∈ downPhases by decide] using member
    · rwa [downs_succeeded, Finset.sdiff_singleton_eq_erase]
  | @done path i c c' ev l fresh _ _ ih =>
    obtain ⟨member, loop | ⟨inside, low⟩⟩ := top i rfl
    · exact absurd loop fresh
    have same := standing.exact i member
    rw [if_pos (Or.inl inside)] at same
    have alone : edges G.req up i = 0 := by omega
    have entered : Standing G p root up path owed c := by simpa [Task.rest] using standing
    obtain ⟨subset, ordered, after⟩ := ih (List.mem_cons_of_mem _ rooted) (entered.enter inside) (used i)
      (by simp [Task.root])
    refine ⟨?_, downLast_after (succeeded_complete i l) (downLast_alone alone fun j member => ?_) ?_, fun _ => ?_⟩
    · rw [downs_append, downs_succeeded]
      exact Finset.union_subset (by simpa using inside) (subset.trans (Finset.erase_subset i up))
    · simpa [starts_succeeded _ _ _ downPhases_nodup, show Phase.preDown ∈ downPhases by decide] using member
    · rwa [downs_succeeded, Finset.sdiff_singleton_eq_erase]
    · have left := (after rfl).leave fresh (Or.inr (by
        have fewer := edges_mono (g := G.req) (x := i) (Finset.sdiff_subset (s := up.erase i) (t := downs ev))
        have subset := edges_mono (g := G.req) (x := i) (Finset.erase_subset i up)
        omega))
      rwa [sdiff_downs_append, downs_succeeded, Finset.sdiff_singleton_eq_erase]
  | held _ _ ih =>
    exact ih rooted standing.release (fun d later => rest d (List.mem_cons_of_mem _ later)) (by simp [Task.root])
  | kept _ _ _ ih =>
    exact ih rooted standing.release (fun d later => rest d (List.mem_cons_of_mem _ later)) (by simp [Task.root])
  | @released c d path c₁ ev₁ ds ok c' ev₂ unneeded _ run _ ihRun ihRest =>
    have entry : p d ∧ (d ∈ path ∨ d ∈ up ∧ unref c d d ≤ 1) := by
      refine ⟨rest d List.mem_cons_self, ?_⟩
      by_cases same : d = root
      · exact Or.inl (same ▸ rooted)
      · rcases standing.closed d same (by simp [Task.rest]) with inside | pending
        · exact Or.inr ⟨inside, unneeded⟩
        · exact Or.inl pending
    obtain ⟨subset₁, ordered₁, after₁⟩ := ihRun rooted
      (show Standing G p root up path (fun x => (owed x + ds.count x) + ([] : List α).count x) (unref c d)
        from standing.release) (by simp [Task.rest])
      (by rintro i ⟨⟩; exact entry)
    obtain ⟨subset₂, ordered₂, after₂⟩ := ihRest rooted (after₁ rfl)
      (fun d later => rest d (List.mem_cons_of_mem _ later)) (by simp [Task.root])
    refine ⟨?_, downLast_after (fun _ gone _ => down_complete run gone) ordered₁ ordered₂, fun success => ?_⟩
    · rw [downs_append]
      exact Finset.union_subset subset₁ (subset₂.trans Finset.sdiff_subset)
    · rw [sdiff_downs_append]
      exact after₂ success
  | @broken c d path c' ev ds unneeded _ _ ih =>
    have entry : p d ∧ (d ∈ path ∨ d ∈ up ∧ unref c d d ≤ 1) := by
      refine ⟨rest d List.mem_cons_self, ?_⟩
      by_cases same : d = root
      · exact Or.inl (same ▸ rooted)
      · rcases standing.closed d same (by simp [Task.rest]) with inside | pending
        · exact Or.inr ⟨inside, unneeded⟩
        · exact Or.inl pending
    obtain ⟨subset, ordered, -⟩ := ih rooted (show Standing G p root up path (fun x => (owed x + ds.count x) + ([] : List α).count x) (unref c d)
      from standing.release) (by simp [Task.rest])
      (by rintro i ⟨⟩; exact entry)
    exact ⟨subset, ordered, by simp⟩

theorem standing_start (exact : Exact G.req p conf c) (closed : Closed G.req conf) :
    Standing G p root conf [] (fun _ => 0) c where
  exact x used := by simpa using exact x used
  closed x _ positive := by
    obtain ⟨j, member, edge⟩ := edges_pos.mp (show 0 < edges G.req conf x by simpa using positive)
    exact Or.inl (closed j member x edge)
  apart x none := by cases none

/-- The command's own interface apart, an interface goes down after all that require it, and
a successful teardown keeps the counts exact. -/
theorem down_exact (h : Down G [] (.run root l) c ok c' ev) (exact : Exact G.req p conf c)
    (closed : Closed G.req conf) (used : ∀ i, ∀ d ∈ G.req i, p d) (inside : root ∈ conf) :
    downs ev ⊆ conf ∧
      AtEach (fun pre event => ∀ i l, event = .started i l .preDown → i = root ∨
        ∀ j ∈ conf, i ∈ G.req j → ∀ phase ∈ downPhases, j ∈ completed phase pre) ev ∧
      (ok = true → Exact G.req p (conf \ downs ev) c' ∧
        ∀ j ∈ conf \ downs ev, ∀ d ∈ G.req j, d = root ∨ d ∈ conf \ downs ev) := by
  have start : Standing G p root conf [] (fun _ => 0) c := standing_start exact closed
  have inner {c' ok ev} (deps : Down G [root] (.deps (G.req root)) c ok c' ev) :=
    down_standing deps used (List.mem_singleton.mpr rfl) (start.enter inside) (used root)
      (by simp [Task.root])
  have own : AtEach (fun pre event => ∀ i l', event = .started i l' .preDown → i = root ∨
      ∀ j ∈ conf, i ∈ G.req j → ∀ phase ∈ downPhases, j ∈ completed phase pre)
      (succeeded root l downPhases) := by
    apply AtEach.of_mem
    rintro pre _ member i l' rfl
    have single := mem_starts member
    rw [starts_succeeded _ _ _ downPhases_nodup] at single
    exact Or.inl (by simpa [show Phase.preDown ∈ downPhases by decide] using single)
  have later {ev : List (Event α)} (ordered : AtEach (DownLast G (conf.erase root)) ev) :
      AtEach (fun pre event => ∀ i l', event = .started i l' .preDown → i = root ∨
        ∀ j ∈ conf, i ∈ G.req j → ∀ phase ∈ downPhases,
          j ∈ completed phase (succeeded root l downPhases ++ pre)) ev := by
    refine ordered.mono fun pre event last i l' same => Or.inr fun j member edge phase among => ?_
    rw [completed_append, completed_succeeded _ _ _ downPhases_nodup, if_pos among, List.mem_append,
      List.mem_singleton]
    by_cases here : j = root
    · exact Or.inl here
    · exact Or.inr (last i l' same j (Finset.mem_erase.mpr ⟨here, member⟩) edge phase among)
  cases h with
  | pending loop => cases loop
  | template => exact ⟨by simp, AtEach.nil, by simp⟩
  | failed _ _ phases =>
    refine ⟨by simp [downs_phasesFail phases], ?_, by simp⟩
    apply AtEach.of_mem
    rintro pre _ member i l' rfl
    have single := (starts_phasesFail .preDown downPhases_nodup phases).subset (mem_starts member)
    exact Or.inl (by simpa [show Phase.preDown ∈ downPhases by decide] using single)
  | stopped _ _ deps =>
    obtain ⟨subset, ordered, -⟩ := inner deps
    refine ⟨?_, AtEach.append.mpr ⟨own, later ordered⟩, by simp⟩
    rw [downs_append, downs_succeeded]
    exact Finset.union_subset (by simpa using inside) (subset.trans (Finset.erase_subset _ _))
  | done _ _ deps =>
    obtain ⟨subset, ordered, after⟩ := inner deps
    have left := (after rfl).leave List.not_mem_nil (Or.inl rfl)
    rw [← Finset.sdiff_singleton_eq_erase, ← downs_succeeded root l, ← sdiff_downs_append] at left
    refine ⟨?_, AtEach.append.mpr ⟨own, later ordered⟩, fun _ => ⟨fun x used => ?_, fun j member d edge => ?_⟩⟩
    · rw [downs_append, downs_succeeded]
      exact Finset.union_subset (by simpa using inside) (subset.trans (Finset.erase_subset _ _))
    · simpa using left.exact x used
    · by_cases same : d = root
      · exact Or.inl same
      · have needed := edges_pos.mpr ⟨j, member, edge⟩
        rcases left.closed d same (by omega) with up | none
        · exact Or.inr up
        · cases none

end Ifupdown
