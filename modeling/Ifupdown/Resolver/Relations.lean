import Ifupdown.Resolver.Trace

/-! The recursion of `lif_lifecycle_run` and `handle_dependents` without its plumbing.
Counts are a function of the names, the pending interfaces are the path that leads to the
current one, and the outcome of a phase is left open. -/
namespace Ifupdown

/-- What a run reads and never changes. -/
structure DepGraph (α : Type) where
  req : α → List α
  template : α → Bool
  explicit : α → Bool

inductive Task (α : Type) where
  | run (iface lifname : α)
  | deps (rest : List α)

section
variable [DecidableEq α]

def ref (c : α → Nat) (x : α) : α → Nat := Function.update c x (c x + 1)

def unref (c : α → Nat) (x : α) : α → Nat := Function.update c x (c x - 1)

theorem ref_apply (c : α → Nat) (x y : α) : ref c x y = c y + if y = x then 1 else 0 := by
  unfold ref
  by_cases same : y = x
  · subst same; simp
  · simp [same]

theorem unref_apply (c : α → Nat) (x y : α) : unref c x y = c y - if y = x then 1 else 0 := by
  unfold unref
  by_cases same : y = x
  · subst same; simp
  · simp [same]

@[simp] theorem ref_self (c : α → Nat) (x : α) : ref c x x = c x + 1 := by simp [ref]

@[simp] theorem unref_self (c : α → Nat) (x : α) : unref c x x = c x - 1 := by simp [unref]

/-- Bringing up: `Up G path task before ok after events`. -/
inductive Up (G : DepGraph α) :
    List α → Task α → (α → Nat) → Bool → (α → Nat) → List (Event α) → Prop where
  | pending (loop : i ∈ path) : Up G path (.run i l) c true c []
  | template (fresh : i ∉ path) (template : G.template i = true) :
      Up G path (.run i l) c false c []
  | stopped (fresh : i ∉ path) (ordinary : G.template i = false)
      (deps : Up G (i :: path) (.deps (G.req i)) c false c' ev) :
      Up G path (.run i l) c false c' ev
  | failed (fresh : i ∉ path) (ordinary : G.template i = false)
      (deps : Up G (i :: path) (.deps (G.req i)) c true c' ev)
      (phases : PhasesFail i l upPhases last) :
      Up G path (.run i l) c false c' (ev ++ last)
  | done (fresh : i ∉ path) (ordinary : G.template i = false)
      (deps : Up G (i :: path) (.deps (G.req i)) c true c' ev) :
      Up G path (.run i l) c true (ref c' i) (ev ++ succeeded i l upPhases)
  | nil : Up G path (.deps []) c true c []
  | held (counted : 0 < c d) (rest : Up G path (.deps ds) (ref c d) ok c' ev) :
      Up G path (.deps (d :: ds)) c ok c' ev
  | raised (uncounted : c d = 0) (run : Up G path (.run d d) (ref c d) true c₁ ev₁)
      (rest : Up G path (.deps ds) c₁ ok c' ev₂) :
      Up G path (.deps (d :: ds)) c ok c' (ev₁ ++ ev₂)
  | broken (uncounted : c d = 0) (run : Up G path (.run d d) (ref c d) false c' ev) :
      Up G path (.deps (d :: ds)) c false c' ev

/-- Taking down: `Down G path task before ok after events`. -/
inductive Down (G : DepGraph α) :
    List α → Task α → (α → Nat) → Bool → (α → Nat) → List (Event α) → Prop where
  | pending (loop : i ∈ path) : Down G path (.run i l) c true c []
  | template (fresh : i ∉ path) (template : G.template i = true) :
      Down G path (.run i l) c false c []
  | failed (fresh : i ∉ path) (ordinary : G.template i = false)
      (phases : PhasesFail i l downPhases ev) :
      Down G path (.run i l) c false c ev
  | stopped (fresh : i ∉ path) (ordinary : G.template i = false)
      (deps : Down G (i :: path) (.deps (G.req i)) c false c' ev) :
      Down G path (.run i l) c false c' (succeeded i l downPhases ++ ev)
  | done (fresh : i ∉ path) (ordinary : G.template i = false)
      (deps : Down G (i :: path) (.deps (G.req i)) c true c' ev) :
      Down G path (.run i l) c true (unref c' i) (succeeded i l downPhases ++ ev)
  | nil : Down G path (.deps []) c true c []
  | held (needed : 1 < unref c d d) (rest : Down G path (.deps ds) (unref c d) ok c' ev) :
      Down G path (.deps (d :: ds)) c ok c' ev
  | kept (unneeded : unref c d d ≤ 1) (explicit : G.explicit d = true)
      (rest : Down G path (.deps ds) (unref c d) ok c' ev) :
      Down G path (.deps (d :: ds)) c ok c' ev
  | released (unneeded : unref c d d ≤ 1) (implicit : G.explicit d = false)
      (run : Down G path (.run d d) (unref c d) true c₁ ev₁)
      (rest : Down G path (.deps ds) c₁ ok c' ev₂) :
      Down G path (.deps (d :: ds)) c ok c' (ev₁ ++ ev₂)
  | broken (unneeded : unref c d d ≤ 1) (implicit : G.explicit d = false)
      (run : Down G path (.run d d) (unref c d) false c' ev) :
      Down G path (.deps (d :: ds)) c false c' ev

end

def NoTemplate (G : DepGraph α) (i : α) : Prop :=
  ∀ d, Relation.TransGen (Successors.Edge G.req) i d → G.template d = false

theorem noTemplate_deps {G : DepGraph α} (none : NoTemplate G i) :
    ¬ ∃ d ∈ G.req i, ∃ t, Relation.ReflTransGen (Successors.Edge G.req) d t ∧ G.template t = true := by
  rintro ⟨d, edge, t, walk, template⟩
  have plain := none t (Relation.TransGen.head' edge walk)
  rw [plain] at template
  cases template

def FreeEdge (G : DepGraph α) (c : α → Nat) (i d : α) : Prop := d ∈ G.req i ∧ c d = 0

def Task.names : Task α → List α
  | .run i _ => [i]
  | .deps rest => rest

def Task.rest : Task α → List α
  | .run _ _ => []
  | .deps rest => rest

def Task.root : Task α → Option α
  | .run i _ => some i
  | .deps _ => none

end Ifupdown
