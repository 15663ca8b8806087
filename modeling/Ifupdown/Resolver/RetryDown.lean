import Ifupdown.Resolver.BringUpOrder
import Ifupdown.Resolver.TearDown

/-! A teardown that fails, tried again. -/
namespace Ifupdown

open Successors

variable {α : Type} [DecidableEq α] {G : DepGraph α} {path : List α} {task : Task α}
  {c c' c₁ c₂ a a' b b' : α → Nat} {ok : Bool} {ev ev₁ ev₂ : List (Event α)} {root d : α}

theorem down_waiting (acyclic : Acyclic G.req) (h : Down G path task c ok c' ev) (leads : Leads G path task)
    {p : α} (waits : p ∈ path) : c' p = c p := by
  have apart {p n} (walk : Relation.TransGen (Edge G.req) p n) : p ≠ n := by
    rintro rfl
    exact acyclic p walk
  induction h with
  | pending | template | failed | nil => rfl
  | stopped _ _ _ ih => exact ih leads.enter (List.mem_cons_of_mem _ waits)
  | @done path i c c' ev l _ _ _ ih =>
    rw [unref_apply, if_neg (apart (leads p waits i (List.mem_singleton.mpr rfl)))]
    exact ih leads.enter (List.mem_cons_of_mem _ waits)
  | @held c d _ _ _ _ _ _ _ ih | @kept c d _ _ _ _ _ _ _ _ ih =>
    rw [ih leads.later waits, unref_apply, if_neg (apart (leads p waits d List.mem_cons_self))]
    rfl
  | @released c d path c₁ ev₁ ds ok c' ev₂ _ _ _ _ ihRun ihRest =>
    rw [ihRest leads.later waits, ihRun leads.first waits, unref_apply,
      if_neg (apart (leads p waits d List.mem_cons_self))]
    rfl
  | @broken c d path c' ev ds _ _ _ ih =>
    rw [ih leads.first waits, unref_apply, if_neg (apart (leads p waits d List.mem_cons_self))]
    rfl

theorem down_failed_waiting (acyclic : Acyclic G.req) (failed : Down G [] (.run root l) c false c₁ ev) :
    c₁ root = c root := by
  cases failed with
  | template | failed => rfl
  | stopped _ _ deps => exact down_waiting acyclic deps (Leads.enter (l := root) leads_nil) List.mem_cons_self

/-- What a successful teardown does at the first of the remaining dependencies. -/
inductive DownStep (G : DepGraph α) (path : List α) (d : α) (c c₁ : α → Nat) : Prop where
  | stays (same : c₁ = unref c d) (needed : 1 < unref c d d ∨ G.explicit d = true)
  | goes (unneeded : unref c d d ≤ 1) (implicit : G.explicit d = false)
      (run : ∃ ev, Down G path (.run d d) (unref c d) true c₁ ev)

theorem down_deps_cons (h : Down G path (.deps (d :: ds)) c true c' ev) :
    ∃ c₁ ev₂, DownStep G path d c c₁ ∧ Down G path (.deps ds) c₁ true c' ev₂ := by
  cases h with
  | held needed rest => exact ⟨_, _, .stays rfl (Or.inl needed), rest⟩
  | kept _ explicit rest => exact ⟨_, _, .stays rfl (Or.inr explicit), rest⟩
  | released unneeded implicit run rest => exact ⟨_, _, .goes unneeded implicit ⟨_, run⟩, rest⟩

theorem downStep_mono (step : DownStep G path d c c₁) (x : α) : c₁ x ≤ unref c d x := by
  cases step with
  | stays same => rw [same]
  | goes _ _ run =>
    obtain ⟨ev, run⟩ := run
    exact down_mono run x

/-- The less is counted before a teardown, the less is counted after it. -/
theorem down_monotone (first : Down G path task a ok a' ev₁) (second : Down G path task b ok b' ev₂)
    (success : ok = true) (less : ∀ x, b x ≤ a x) (x : α) : b' x ≤ a' x := by
  induction first generalizing b b' ev₂ x with
  | template | failed | stopped | broken => cases success
  | pending loop =>
    cases second with
    | pending => exact less x
    | done fresh => exact absurd loop fresh
  | nil =>
    cases second
    exact less x
  | done fresh _ _ ih =>
    cases second with
    | pending loop => exact absurd loop fresh
    | done _ _ deps =>
      have below := ih deps success less x
      rw [unref_apply, unref_apply]
      omega
  | @held c d path ds ok c' ev needed _ ih =>
    subst success
    obtain ⟨b₁, ev₂, step, rest⟩ := down_deps_cons second
    refine ih rest rfl (fun y => (downStep_mono step y).trans ?_) x
    have below := less y
    rw [unref_apply, unref_apply]
    omega
  | @kept c d path ds ok c' ev _ explicit _ ih =>
    subst success
    obtain ⟨b₁, ev₂, step, rest⟩ := down_deps_cons second
    refine ih rest rfl (fun y => (downStep_mono step y).trans ?_) x
    have below := less y
    rw [unref_apply, unref_apply]
    omega
  | @released c d path c₁ ev₁ ds ok c' ev₂ unneeded implicit _ _ ihRun ihRest =>
    subst success
    obtain ⟨b₁, ev₂, step, rest⟩ := down_deps_cons second
    have below (y) : unref b d y ≤ unref c d y := by
      have below := less y
      rw [unref_apply, unref_apply]
      omega
    refine ihRest rest rfl (fun y => ?_) x
    cases step with
    | stays same needed =>
      have low := below d
      rcases needed with needed | explicit
      · omega
      · rw [implicit] at explicit
        cases explicit
    | goes _ _ run =>
      obtain ⟨ev, run⟩ := run
      exact ihRun run rfl below y

theorem down_deterministic (first : Down G path task c true c₁ ev₁) (second : Down G path task c true c₂ ev₂) :
    c₁ = c₂ := by
  funext x
  apply Nat.le_antisymm
  · exact down_monotone second first rfl (fun _ => Nat.le_refl _) x
  · exact down_monotone first second rfl (fun _ => Nat.le_refl _) x

/-- A failed teardown is the beginning of a successful one. -/
theorem down_prefix (failed : Down G path task c ok c₁ ev₁) (stopped : ok = false)
    (whole : Down G path task c true c' ev₂) (x : α) : c' x ≤ c₁ x := by
  induction failed generalizing c' ev₂ with
  | pending | done | nil => cases stopped
  | template fresh template =>
    cases whole with
    | pending loop => exact absurd loop fresh
    | done _ ordinary =>
      rw [template] at ordinary
      cases ordinary
  | failed => exact down_mono whole x
  | stopped fresh _ _ ih =>
    cases whole with
    | pending loop => exact absurd loop fresh
    | done _ _ deps =>
      have below := ih stopped deps
      rw [unref_apply]
      omega
  | held needed _ ih =>
    cases whole with
    | held _ rest => exact ih stopped rest
    | kept unneeded | released unneeded => omega
  | kept unneeded explicit _ ih =>
    cases whole with
    | held needed => omega
    | kept _ _ rest => exact ih stopped rest
    | released _ implicit =>
      rw [implicit] at explicit
      cases explicit
  | released unneeded implicit run _ _ ih =>
    cases whole with
    | held needed => omega
    | kept _ explicit =>
      rw [implicit] at explicit
      cases explicit
    | released _ _ again rest =>
      rw [down_deterministic again run] at rest
      exact ih stopped rest
  | broken unneeded implicit _ ih =>
    cases whole with
    | held needed => omega
    | kept _ explicit =>
      rw [implicit] at explicit
      cases explicit
    | released _ _ again rest => exact (down_mono rest x).trans (ih stopped again)

theorem down_outside (h : Down G path task c ok c' ev) {s : Set α} (closed : ∀ i ∈ s, ∀ d ∈ G.req i, d ∈ s)
    (names : ∀ n ∈ task.names, n ∈ s) {x : α} (outside : x ∉ s) : c' x = c x := by
  have apart {n} (inside : n ∈ s) : x ≠ n := by
    rintro rfl
    exact outside inside
  induction h with
  | pending | template | failed | nil => rfl
  | stopped _ _ _ ih => exact ih (closed _ (names _ (List.mem_singleton.mpr rfl)))
  | @done path i c c' ev l _ _ _ ih =>
    have inside := names i (List.mem_singleton.mpr rfl)
    rw [unref_apply, if_neg (apart inside)]
    exact ih (closed i inside)
  | @held c d _ _ _ _ _ _ _ ih | @kept c d _ _ _ _ _ _ _ _ ih =>
    rw [ih fun n later => names n (List.mem_cons_of_mem _ later), unref_apply,
      if_neg (apart (names d List.mem_cons_self))]
    rfl
  | @released c d path c₁ ev₁ ds ok c' ev₂ _ _ _ _ ihRun ihRest =>
    have inside := names d List.mem_cons_self
    rw [ihRest fun n later => names n (List.mem_cons_of_mem _ later),
      ihRun fun n named => List.mem_singleton.mp named ▸ inside, unref_apply, if_neg (apart inside)]
    rfl
  | @broken c d path c' ev ds _ _ _ ih =>
    have inside := names d List.mem_cons_self
    rw [ih fun n named => List.mem_singleton.mp named ▸ inside, unref_apply, if_neg (apart inside)]
    rfl

theorem downStep_outside (step : DownStep G path d c c₁) {s : Set α} (closed : ∀ i ∈ s, ∀ d ∈ G.req i, d ∈ s)
    (inside : d ∈ s) {x : α} (outside : x ∉ s) : c₁ x = c x := by
  have other : x ≠ d := by
    rintro rfl
    exact outside inside
  have spared : unref c d x = c x := by
    rw [unref_apply, if_neg other]
    rfl
  cases step with
  | stays same => rw [same, spared]
  | goes _ _ run =>
    obtain ⟨ev, run⟩ := run
    rw [down_outside run closed (fun n named => List.mem_singleton.mp named ▸ inside) outside, spared]

/-- Outside of `s`, the counts `b` differ from `a` only where `a` is so low that it makes no difference. -/
def Close (s low : Set α) (a b : α → Nat) : Prop :=
  ∀ x, x ∉ s → b x = a x ∨ x ∈ low ∧ b x ≤ a x ∧ a x ≤ 2

theorem close_unref {s low : Set α} (close : Close s low a b) (d : α) : Close s low (unref a d) (unref b d) := by
  intro x outside
  rw [unref_apply, unref_apply]
  rcases close x outside with same | ⟨member, below, few⟩
  · exact Or.inl (by rw [same])
  · exact Or.inr ⟨member, by omega, by omega⟩

theorem close_inside {s low : Set α} (closed : ∀ i ∈ s, ∀ d ∈ G.req i, d ∈ s) (inside : d ∈ s)
    (first : DownStep G path d a a') (second : DownStep G path d b b') (close : Close s low a b) :
    Close s low a' b' := by
  intro x outside
  rw [downStep_outside first closed inside outside, downStep_outside second closed inside outside]
  exact close x outside

theorem close_below {s low : Set α} (close : Close s low a b) (outside : d ∉ s) :
    unref b d d ≤ unref a d d ∧ (unref b d d = unref a d d ∨ unref a d d ≤ 1) := by
  rw [unref_self, unref_self]
  rcases close d outside with same | ⟨-, below, few⟩
  · exact ⟨by omega, Or.inl (by omega)⟩
  · exact ⟨by omega, Or.inr (by omega)⟩

/-- Two teardowns that start close to each other take the same way, but for what they do in `s`. -/
theorem down_close (first : Down G path task a ok a' ev₁) (second : Down G path task b ok b' ev₂)
    (success : ok = true) {s low : Set α} (closed : ∀ i ∈ s, ∀ d ∈ G.req i, d ∈ s) (close : Close s low a b) :
    Close s low a' b' := by
  induction first generalizing b b' ev₂ with
  | template | failed | stopped | broken => cases success
  | pending loop =>
    cases second with
    | pending => exact close
    | done fresh => exact absurd loop fresh
  | nil =>
    cases second
    exact close
  | @done path i c c' ev l fresh _ _ ih =>
    cases second with
    | pending loop => exact absurd loop fresh
    | done _ _ deps => exact close_unref (ih deps success close) i
  | @held c d path ds ok c' ev needed _ ih =>
    subst success
    obtain ⟨b₁, ev₂, step, rest⟩ := down_deps_cons second
    apply ih rest rfl
    by_cases inside : d ∈ s
    · exact close_inside closed inside (.stays rfl (Or.inl needed)) step close
    · cases step with
      | stays same => exact same ▸ close_unref close d
      | goes unneeded =>
        have below := close_below close inside
        omega
  | @kept c d path ds ok c' ev _ explicit _ ih =>
    subst success
    obtain ⟨b₁, ev₂, step, rest⟩ := down_deps_cons second
    apply ih rest rfl
    cases step with
    | stays same => exact same ▸ close_unref close d
    | goes _ implicit =>
      rw [implicit] at explicit
      cases explicit
  | @released c d path c₁ ev₁ ds ok c' ev₂ unneeded implicit run _ ihRun ihRest =>
    subst success
    obtain ⟨b₁, ev₂, step, rest⟩ := down_deps_cons second
    apply ihRest rest rfl
    by_cases inside : d ∈ s
    · exact close_inside closed inside (.goes unneeded implicit ⟨_, run⟩) step close
    · cases step with
      | stays _ needed =>
        have below := close_below close inside
        rcases needed with needed | explicit
        · omega
        · rw [implicit] at explicit
          cases explicit
      | goes _ _ again =>
        obtain ⟨ev, again⟩ := again
        exact ihRun again rfl (close_unref close d)

theorem released_below {s : Finset α} (released : Released G c root s) {d : α} (member : d ∈ s) :
    Relation.ReflTransGen (Edge G.req) root d := by
  induction released generalizing d with
  | root =>
    obtain rfl := Finset.mem_singleton.mp member
    exact .refl
  | @release s e _ _ reached _ ih =>
    rcases Finset.mem_insert.mp member with rfl | old
    · obtain ⟨i, inside, edge⟩ := edges_pos.mp reached
      exact (ih inside).tail edge
    · exact ih old

theorem released_implicit {s : Finset α} (released : Released G c root s) {d : α} (member : d ∈ s) (other : d ≠ root) :
    G.explicit d = false := by
  induction released with
  | root => exact absurd (Finset.mem_singleton.mp member) other
  | release _ implicit _ _ ih =>
    rcases Finset.mem_insert.mp member with rfl | old
    · exact implicit
    · exact ih old

/-- The interfaces whose count the failed teardown has lowered go down with `root`, and where two
or more interfaces require one of them, so does everything below it. -/
def Spent (G : DepGraph α) (c : α → Nat) (root : α) (c₁ : α → Nat) : Prop :=
  ∀ d, c₁ d ≠ c d → ∃ s, Released G c root s ∧ d ∈ s ∧
    (3 ≤ c d → ∀ y, Relation.TransGen (Edge G.req) d y → y ∈ s)

/-- A second teardown makes up for a failed one that has only lowered what goes down anyway. -/
theorem retry_down (acyclic : Acyclic G.req) (failed : Down G [] (.run root l) c false c₁ ev)
    (retried : Down G [] (.run root l) c₁ true c₂ ev₁) (single : Down G [] (.run root l) c true c' ev₂)
    (spent : Spent G c root c₁) : c₂ = c' := by
  have low := down_mono failed
  have waiting := down_failed_waiting acyclic failed
  have gone {s : Finset α} (released : Released G c root s) {y : α} (member : y ∈ s) (other : y ≠ root) : c' y = 0 := by
    rcases down_uncounted single rfl (released_down single released member) with zero | ⟨same, -⟩
    · exact zero
    · exact absurd (Option.some.inj same).symm other
  have below {d : α} (lowered : c₁ d ≠ c d) : d ≠ root := by
    rintro rfl
    exact lowered waiting
  let often : Set α := {y | ∃ d, c₁ d ≠ c d ∧ 3 ≤ c d ∧ Relation.ReflTransGen (Edge G.req) d y}
  have closed : ∀ i ∈ often, ∀ d ∈ G.req i, d ∈ often := by
    rintro i ⟨d, lowered, many, walk⟩ e edge
    exact ⟨d, lowered, many, walk.tail edge⟩
  have close : Close often {x | c₁ x ≠ c x} c c₁ := by
    intro x outside
    by_cases same : c₁ x = c x
    · exact Or.inl same
    · refine Or.inr ⟨same, low x, ?_⟩
      by_contra many
      exact outside ⟨x, same, by omega, .refl⟩
  have lower := down_monotone single retried rfl low
  funext x
  have least := lower x
  by_cases inside : x ∈ often
  · obtain ⟨d, lowered, many, walk⟩ := inside
    obtain ⟨s, released, member, all⟩ := spent d lowered
    have zero : c' x = 0 := by
      rcases Relation.reflTransGen_iff_eq_or_transGen.mp walk with rfl | deeper
      · exact gone released member (below lowered)
      · refine gone released (all many x deeper) ?_
        rintro rfl
        exact acyclic x (.trans_right (released_below released member) deeper)
    omega
  · rcases down_close single retried rfl closed close x inside with same | ⟨lowered, -, -⟩
    · exact same
    · obtain ⟨s, released, member, -⟩ := spent x lowered
      have zero := gone released member (below lowered)
      omega

end Ifupdown
