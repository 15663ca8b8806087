import Ifupdown.Resolver.Repeats

/-! Teardowns that enter every interface at most once. -/
namespace Ifupdown

open Successors

variable {α : Type} [DecidableEq α] {G : DepGraph α} {path : List α} {task : Task α} {s : Finset α}
  {c c' c₀ owed : α → Nat} {ok : Bool} {ev : List (Event α)} {root l : α}

/-- The count of an interface covers all of the dependents that go down with `root`. -/
def Sparing (G : DepGraph α) (c : α → Nat) (root : α) : Prop :=
  ∀ s, Released G c root s → ∀ x, x ≠ root → G.explicit x = false → 0 < edges G.req s x →
    0 < c x ∧ edges G.req s x ≤ max (c x - 1) 1

def Covering (G : DepGraph α) (c : α → Nat) (root : α) : Prop :=
  ∀ s, Released G c root s → ∀ x, x ≠ root → G.explicit x = false → edges G.req s x ≤ max (c x - 1) 1

theorem sparing_covering (sparing : Sparing G c root) : Covering G c root := by
  intro s released x other implicit
  by_cases reached : 0 < edges G.req s x
  · exact (sparing s released x other implicit reached).2
  · omega

def Reached (G : DepGraph α) (c : α → Nat) (root x : α) : Prop :=
  x ≠ root ∧ G.explicit x = false ∧ ∃ s, Released G c root s ∧ 0 < edges G.req s x

theorem sparing_positive (sparing : Sparing G c root) (reached : Reached G c root x) : 0 < c x := by
  obtain ⟨other, implicit, s, released, positive⟩ := reached
  exact (sparing s released x other implicit positive).1

theorem down_starts (h : Down G path task c ok c' ev) (phase : Phase) :
    (starts phase ev).Sublist (starts .preDown ev) := by
  have whole (i l : α) : (starts phase (succeeded i l downPhases)).Sublist
      (starts .preDown (succeeded i l downPhases)) := by
    rw [starts_succeeded phase _ _ downPhases_nodup, starts_succeeded .preDown _ _ downPhases_nodup,
      if_pos (show Phase.preDown ∈ downPhases by decide)]
    split
    · exact List.Sublist.refl _
    · exact List.nil_sublist _
  induction h with
  | pending | template | nil => exact List.Sublist.refl _
  | @failed path i l ev c _ _ phases =>
    have single := starts_phasesFail phase downPhases_nodup phases
    have first := List.singleton_sublist.mpr (starts_phasesFail_head phases)
    split at single
    · exact single.trans first
    · exact single.trans (List.nil_sublist _)
  | stopped _ _ _ ih | done _ _ _ ih =>
    rw [starts_append, starts_append]
    exact (whole _ _).append ih
  | held _ _ ih => exact ih
  | kept _ _ _ ih => exact ih
  | released _ _ _ _ ihRun ihRest =>
    rw [starts_append, starts_append]
    exact ihRun.append ihRest
  | broken _ _ _ ih => exact ih

/-- A teardown of `root` that has entered `s`, and that is still to count down `owed` edges from
there. -/
structure Ledger (G : DepGraph α) (c₀ : α → Nat) (root : α) (s : Finset α) (owed c : α → Nat) : Prop where
  released : Released G c₀ root s
  due : ∀ x, owed x ≤ edges G.req s x
  outside : ∀ x, x ∉ s → c₀ x + owed x ≤ c x + edges G.req s x
  inside : ∀ x ∈ s, x ≠ root → G.explicit x = false ∧ owed x < edges G.req s x ∧
    c₀ x + owed x ≤ edges G.req s x + 1

theorem ledger_root (c : α → Nat) : Ledger G c root {root} (fun x => (G.req root).count x) c where
  released := .root
  due x := by rw [edges_singleton]
  outside x _ := by rw [edges_singleton]
  inside x here other := absurd (Finset.mem_singleton.mp here) other

theorem ledger_start (c : α → Nat) :
    Ledger G c root {root} (fun x => (fun _ => 0) x + (Task.deps (G.req root)).rest.count x) c := by
  simpa [Task.rest] using ledger_root c

theorem Ledger.pay {ds : List α} {d : α}
    (ledger : Ledger G c₀ root s (fun x => owed x + (d :: ds).count x) c) :
    Ledger G c₀ root s (fun x => owed x + ds.count x) (unref c d) where
  released := ledger.released
  due x := by
    have due := ledger.due x
    rw [List.count_cons] at due
    omega
  outside x out := by
    have due := ledger.due x
    have low := ledger.outside x out
    simp only [List.count_cons, beq_iff_eq] at due low
    rw [unref_apply]
    by_cases same : d = x
    · subst same
      simp only [if_true] at due low ⊢
      omega
    · simp only [if_neg same, if_neg (Ne.symm same)] at low ⊢
      omega
  inside x member other := by
    obtain ⟨implicit, due, low⟩ := ledger.inside x member other
    rw [List.count_cons] at due low
    exact ⟨implicit, by omega, by omega⟩

theorem Ledger.fresh {d : α} (ledger : Ledger G c₀ root s owed c) (covering : Covering G c₀ root)
    (other : d ≠ root) (counted : 0 < owed d) : d ∉ s := by
  intro member
  obtain ⟨implicit, due, low⟩ := ledger.inside d member other
  have cover := covering s ledger.released d other implicit
  omega

structure Due (G : DepGraph α) (c₀ : α → Nat) (root : α) (s : Finset α) (owed : α → Nat) (d : α) : Prop where
  other : d ≠ root
  fresh : d ∉ s
  implicit : G.explicit d = false
  reached : owed d < edges G.req s d
  few : c₀ d + owed d ≤ edges G.req s d + 1

theorem Ledger.reached {d : α} (ledger : Ledger G c₀ root s owed c) (due : Due G c₀ root s owed d) :
    Reached G c₀ root d := by
  have positive := due.reached
  exact ⟨due.other, due.implicit, s, ledger.released, by omega⟩

theorem Ledger.enter {d : α} (ledger : Ledger G c₀ root s owed c) (due : Due G c₀ root s owed d) :
    Ledger G c₀ root (insert d s) (fun x => owed x + (G.req d).count x) c where
  released := .release ledger.released due.implicit (by have := due.reached; omega) (by have := due.few; omega)
  due x := by
    have before := ledger.due x
    rw [edges_insert due.fresh]
    omega
  outside x out := by
    have low := ledger.outside x fun member => out (Finset.mem_insert_of_mem member)
    rw [edges_insert due.fresh]
    omega
  inside x member other := by
    rw [edges_insert due.fresh]
    rcases Finset.mem_insert.mp member with rfl | member
    · have reached := due.reached
      have few := due.few
      exact ⟨due.implicit, by omega, by omega⟩
    · obtain ⟨implicit, before, low⟩ := ledger.inside x member other
      exact ⟨implicit, by omega, by omega⟩

/-- What an interface itself is counted for is taken off when all of its edges are. -/
theorem Ledger.leave {d : α} (ledger : Ledger G c₀ root s owed c) (member : d ∈ s) :
    Ledger G c₀ root s owed (unref c d) where
  released := ledger.released
  due := ledger.due
  outside x out := by
    have other : x ≠ d := by
      rintro rfl
      exact out member
    rw [unref_apply, if_neg other]
    exact ledger.outside x out
  inside := ledger.inside

/-- The dependency whose last edge but for its own configuration is counted down is due, or it
is the interface that the command names. -/
theorem Ledger.next {ds : List α} {d : α}
    (ledger : Ledger G c₀ root s (fun x => owed x + (d :: ds).count x) c) (covering : Covering G c₀ root)
    (unneeded : unref c d d ≤ 1) (implicit : G.explicit d = false) :
    d = root ∨ Due G c₀ root s (fun x => owed x + ds.count x) d := by
  by_cases same : d = root
  · exact Or.inl same
  have asked := ledger.due d
  rw [List.count_cons_self] at asked
  have fresh := ledger.fresh covering same (by rw [List.count_cons_self]; omega)
  have low := ledger.outside d fresh
  rw [List.count_cons_self] at low
  rw [unref_self] at unneeded
  exact Or.inr ⟨same, fresh, implicit, by omega, by omega⟩

theorem down_covering (covering : Covering G c₀ root) (h : Down G path task c ok c' ev) (top : root ∈ path)
    (ledger : Ledger G c₀ root s (fun x => owed x + task.rest.count x) c)
    (due : ∀ d, task.root = some d → d = root ∨ Due G c₀ root s owed d) :
    (starts .preDown ev).Nodup ∧ (∀ j ∈ starts .preDown ev, j ∉ s ∧ Reached G c₀ root j) ∧
      (ok = true → Ledger G c₀ root (s ∪ (starts .preDown ev).toFinset) owed c') := by
  have entered {i l : α} : starts .preDown (succeeded i l downPhases) = [i] := by
    rw [starts_succeeded _ _ _ downPhases_nodup, if_pos (by decide)]
  induction h generalizing s owed with
  | pending | nil => exact ⟨List.nodup_nil, by simp, fun _ => by simpa [Task.rest] using ledger⟩
  | template => exact ⟨List.nodup_nil, by simp, by simp⟩
  | @failed path i l ev c fresh _ phases =>
    have due := (due i rfl).resolve_left (by rintro rfl; exact fresh top)
    have single := starts_phasesFail .preDown downPhases_nodup phases
    rw [if_pos (by decide)] at single
    refine ⟨(List.nodup_singleton i).sublist single, fun j member => ?_, by simp⟩
    obtain rfl := List.mem_singleton.mp (single.subset member)
    exact ⟨due.fresh, ledger.reached due⟩
  | @stopped path i c c' ev l fresh _ _ ih | @done path i c c' ev l fresh _ _ ih =>
    have due := (due i rfl).resolve_left (by rintro rfl; exact fresh top)
    obtain ⟨nodup, new, after⟩ := ih (List.mem_cons_of_mem i top) (ledger.enter due) (by simp [Task.root])
    rw [starts_append, entered, List.singleton_append]
    refine ⟨List.nodup_cons.mpr ⟨fun again => (new i again).1 (Finset.mem_insert_self i s), nodup⟩, ?_, ?_⟩
    · intro j member
      rcases List.mem_cons.mp member with rfl | deep
      · exact ⟨due.fresh, ledger.reached due⟩
      · obtain ⟨out, counted⟩ := new j deep
        exact ⟨fun member => out (Finset.mem_insert_of_mem member), counted⟩
    · intro success
      have settled := after success
      rw [Finset.insert_union, ← Finset.union_insert, ← List.toFinset_cons] at settled
      first
      | exact settled
      | exact settled.leave (Finset.mem_union_right _ (List.mem_toFinset.mpr List.mem_cons_self))
  | held _ _ ih | kept _ _ _ ih => exact ih top ledger.pay (by simp [Task.root])
  | @released c d path c₁ ev₁ ds ok c' ev₂ unneeded implicit _ _ ihRun ihRest =>
    have next := ledger.next covering unneeded implicit
    obtain ⟨nodup₁, new₁, after₁⟩ := ihRun top ledger.pay (by rintro _ ⟨⟩; exact next)
    obtain ⟨nodup₂, new₂, after₂⟩ := ihRest top (after₁ rfl) (by simp [Task.root])
    rw [starts_append, List.toFinset_append, ← Finset.union_assoc]
    refine ⟨nodup₁.append nodup₂ fun j early late => ?_, fun j member => ?_, after₂⟩
    · exact (new₂ j late).1 (Finset.mem_union_right _ (List.mem_toFinset.mpr early))
    · rcases List.mem_append.mp member with early | late
      · exact new₁ j early
      · obtain ⟨out, counted⟩ := new₂ j late
        exact ⟨fun member => out (Finset.mem_union_left _ member), counted⟩
  | broken unneeded implicit _ ih =>
    have next := ledger.next covering unneeded implicit
    obtain ⟨nodup, new, -⟩ := ih top ledger.pay (by rintro _ ⟨⟩; exact next)
    exact ⟨nodup, new, by simp⟩

/-- The interfaces that go down with `root` are entered once each, and were all counted. -/
def VisitsOnce (c : α → Nat) (root : α) (ev : List (Event α)) : Prop :=
  ∀ phase, (starts phase ev).Nodup ∧ ∀ i ∈ starts phase ev, i = root ∨ 0 < c i

/-- A teardown from counts that cover all dependents visits every interface once, also one
that is stopped by a failure. -/
theorem sparing_visitsOnce (sparing : Sparing G c root) (h : Down G [] (.run root l) c ok c' ev) :
    VisitsOnce c root ev := by
  suffices first : (starts .preDown ev).Nodup ∧ ∀ i ∈ starts .preDown ev, i = root ∨ 0 < c i by
    intro phase
    have fewer := down_starts h phase
    exact ⟨first.1.sublist fewer, fun i member => first.2 i (fewer.subset member)⟩
  cases h with
  | pending | template => exact ⟨List.nodup_nil, by simp⟩
  | failed _ _ phases =>
    have single := starts_phasesFail .preDown downPhases_nodup phases
    rw [if_pos (by decide)] at single
    exact ⟨(List.nodup_singleton root).sublist single,
      fun i member => Or.inl (List.mem_singleton.mp (single.subset member))⟩
  | stopped _ _ deps | done _ _ deps =>
    obtain ⟨nodup, new, -⟩ := down_covering (sparing_covering sparing) deps List.mem_cons_self (ledger_start c) (by simp [Task.root])
    rw [starts_append, starts_succeeded _ _ _ downPhases_nodup, if_pos (by decide), List.singleton_append]
    refine ⟨List.nodup_cons.mpr ⟨fun again => ?_, nodup⟩, fun i member => ?_⟩
    · exact (new root again).1 (Finset.mem_singleton_self root)
    · exact (List.mem_cons.mp member).imp_right fun deep => sparing_positive sparing (new i deep).2

/-- Without cycles, a successful teardown that visits every interface once covers all dependents. -/
theorem visitsOnce_sparing (acyclic : Acyclic G.req) (h : Down G [] (.run root l) c true c' ev)
    (once : VisitsOnce c root ev) : Sparing G c root := by
  intro s released x other implicit reached
  obtain ⟨nodup, counted⟩ := once .preDown
  have enters (a) (member : a ∈ s) : a ∈ starts .preDown ev :=
    down_started h (Or.inl (released_down h released member))
  have entries := down_entries acyclic h leads_nil rfl implicit List.not_mem_nil
    fun same => absurd (Option.some.inj same).symm other
  have all := edges_le_edgesFrom (g := G.req) enters x
  have single := List.nodup_iff_count_le_one.mp nodup x
  have positive : 0 < c x := by
    by_cases listed : x ∈ starts .preDown ev
    · exact (counted x listed).resolve_left other
    · rw [List.count_eq_zero.mpr listed] at entries
      omega
  exact ⟨positive, by omega⟩

theorem exact_sparing {conf : Finset α} (exact : Exact G.req (fun _ => True) conf c) (closed : Closed G.req conf)
    (inside : root ∈ conf) : Sparing G c root := by
  intro s released x other implicit reached
  have subset : s ⊆ conf := by
    clear reached
    induction released with
    | root => exact Finset.singleton_subset_iff.mpr inside
    | release _ _ reached _ ih =>
      obtain ⟨j, member, edge⟩ := edges_pos.mp reached
      exact Finset.insert_subset (closed j (ih member) _ edge) ih
  obtain ⟨j, member, edge⟩ := edges_pos.mp reached
  have counts := exact x trivial
  rw [if_pos (closed j (subset member) x edge)] at counts
  have fewer := edges_mono (g := G.req) (x := x) subset
  omega

end Ifupdown
