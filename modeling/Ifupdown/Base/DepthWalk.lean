import Ifupdown.Base.Successors

/-! Depth-first walks that note for each vertex how deep they are when they come to it. A vertex
that is come to again is noted and walked through again. -/
namespace Successors

open Relation

variable {α : Type}

/-- `LastPath g x y k`: the path of length `k` on which a walk from `x` comes to `y` for the last
time, since no later successor leads there. -/
inductive LastPath (g : α → List α) : α → α → Nat → Prop where
  | here : LastPath g x x 0
  | step (split : g x = front ++ d :: rest) (last : ∀ e ∈ rest, ¬ ReflTransGen (Edge g) e y)
      (path : LastPath g d y k) : LastPath g x y (k + 1)

/-- The depth of a vertex after walks from all of the `starts`, the latest first. A walk starts at
the depth that its first vertex has then. -/
inductive Depth (g : α → List α) : List α → α → Nat → Prop where
  | unseen : Depth g [] x 0
  | under {starts : List α} (above : TransGen (Edge g) d x) (depth : Depth g starts d m) (path : LastPath g d x k) :
      Depth g (d :: starts) x (m + k)
  | beside {starts : List α} (apart : ¬ TransGen (Edge g) d x) (depth : Depth g starts x n) :
      Depth g (d :: starts) x n

variable [DecidableEq α]

inductive Walks (g : α → List α) : List α → Nat → (α → Nat) → (α → Nat) → Prop where
  | nil : Walks g [] n c c
  | cons (below : Walks g (g x) (n + 1) (Function.update c x n) c₁) (later : Walks g xs n c₁ c₂) :
      Walks g (x :: xs) n c c₂

/-- One walk after the other, each from the depth that its first vertex has by then. -/
inductive Rounds (g : α → List α) : List α → (α → Nat) → (α → Nat) → Prop where
  | nil : Rounds g [] c c
  | cons (walk : Walks g [x] (c x) c c₁) (later : Rounds g xs c₁ c₂) : Rounds g (x :: xs) c c₂

variable {g : α → List α} {front rest xs : List α} {n k : Nat} {x y d : α} {c c' : α → Nat}

omit [DecidableEq α] in
theorem reaches_edge (edge : d ∈ g x) (walk : ReflTransGen (Edge g) d y) : TransGen (Edge g) x y :=
  TransGen.head' edge walk

theorem walks_apart (h : Walks g xs n c c') (apart : ∀ e ∈ xs, ¬ ReflTransGen (Edge g) e y) : c' y = c y := by
  induction h with
  | nil => rfl
  | @cons x n c c₁ xs c₂ _ _ ihBelow ihLater =>
    obtain ⟨here, later⟩ := List.forall_mem_cons.mp apart
    have other : y ≠ x := by
      intro same
      exact here (same ▸ .refl)
    have below : ∀ e ∈ g x, ¬ ReflTransGen (Edge g) e y := fun e edge walk => here (.head edge walk)
    rw [ihLater later, ihBelow below, Function.update_of_ne other]

/-- What a walk comes to is noted where it comes to it last. -/
theorem walks_last (acyclic : Acyclic g) (h : Walks g xs n c c') (split : xs = front ++ d :: rest)
    (last : ∀ e ∈ rest, ¬ ReflTransGen (Edge g) e y) (path : LastPath g d y k) : c' y = n + k := by
  induction h generalizing front d rest k with
  | nil => simp at split
  | @cons x n c c₁ xs c₂ below later ihBelow ihLater =>
    cases front with
    | nil =>
      obtain ⟨rfl, rfl⟩ := List.cons.inj split
      rw [walks_apart later last]
      cases path with
      | here =>
        have alone : ∀ e ∈ g y, ¬ ReflTransGen (Edge g) e y :=
          fun e edge walk => acyclic y (reaches_edge edge walk)
        rw [walks_apart below alone, Function.update_self]
        rfl
      | step inner innerLast path =>
        rw [ihBelow inner innerLast path]
        omega
    | cons first front =>
      obtain ⟨-, split⟩ := List.cons.inj split
      exact ihLater split last path

theorem walks_reach (h : Walks g xs n c c') (reached : ∃ e ∈ xs, ReflTransGen (Edge g) e y) :
    ∃ front d rest k, xs = front ++ d :: rest ∧ (∀ e ∈ rest, ¬ ReflTransGen (Edge g) e y) ∧ LastPath g d y k := by
  induction h with
  | nil => simp at reached
  | @cons x n c c₁ xs c₂ _ _ ihBelow ihLater =>
    by_cases deferred : ∃ e ∈ xs, ReflTransGen (Edge g) e y
    · obtain ⟨front, d, rest, k, split, last, path⟩ := ihLater deferred
      exact ⟨x :: front, d, rest, k, by rw [split]; rfl, last, path⟩
    · have last : ∀ e ∈ xs, ¬ ReflTransGen (Edge g) e y := fun e member walk => deferred ⟨e, member, walk⟩
      obtain ⟨e, member, walk⟩ := reached
      rcases List.mem_cons.mp member with rfl | later
      · rcases ReflTransGen.cases_head walk with same | ⟨d, edge, walk⟩
        · subst same
          exact ⟨[], e, xs, 0, rfl, last, .here⟩
        · obtain ⟨front, d, rest, k, split, inner, path⟩ := ihBelow ⟨d, edge, walk⟩
          exact ⟨[], e, xs, k + 1, rfl, last, .step split inner path⟩
      · exact absurd walk (last e later)

/-- One walk takes the depths from those of the walks before it to its own. -/
theorem walk_depth {starts : List α} (acyclic : Acyclic g) (h : Walks g [d] (c d) c c')
    (before : ∀ x, Depth g starts x (c x)) (exact : ∀ x n, Depth g starts x n → c x = n) (x : α) :
    Depth g (d :: starts) x (c' x) ∧ ∀ n, Depth g (d :: starts) x n → c' x = n := by
  have alone (y : α) : ∀ e ∈ ([] : List α), ¬ ReflTransGen (Edge g) e y := by simp
  by_cases above : TransGen (Edge g) d x
  · obtain ⟨front, e, rest, k, split, -, path⟩ := walks_reach h ⟨d, List.mem_singleton_self d, above.to_reflTransGen⟩
    obtain rfl : e = d := by
      have member : e ∈ [d] := split ▸ List.mem_append_right front List.mem_cons_self
      exact List.mem_singleton.mp member
    have last (k : Nat) (path : LastPath g e x k) : c' x = c e + k :=
      walks_last acyclic h (List.nil_append [e]).symm (alone x) path
    refine ⟨?_, fun n depth => ?_⟩
    · rw [last k path]
      exact .under above (before e) path
    · cases depth with
      | under _ depth path => rw [last _ path, exact _ _ depth]
      | beside apart => exact absurd above apart
  · have same : c' x = c x := by
      by_cases here : x = d
      · subst here
        exact walks_last acyclic h (List.nil_append [x]).symm (alone x) .here
      · apply walks_apart h
        intro e member walk
        obtain rfl := List.mem_singleton.mp member
        rcases reflTransGen_iff_eq_or_transGen.mp walk with same | walk
        · exact here same
        · exact above walk
    rw [same]
    refine ⟨.beside above (before x), fun n depth => ?_⟩
    cases depth with
    | under walk => exact absurd walk above
    | beside _ depth => exact exact x n depth

theorem rounds_depth_from {starts : List α} (acyclic : Acyclic g) (h : Rounds g xs c c')
    (before : ∀ x, Depth g starts x (c x)) (exact : ∀ x n, Depth g starts x n → c x = n) (x : α) :
    Depth g (xs.reverse ++ starts) x (c' x) ∧ ∀ n, Depth g (xs.reverse ++ starts) x n → c' x = n := by
  induction h generalizing starts with
  | nil => exact ⟨before x, exact x⟩
  | @cons d c c₁ xs c₂ walk _ ih =>
    rw [List.reverse_cons, List.append_assoc]
    have step := walk_depth acyclic walk before exact
    exact ih (fun x => (step x).1) (fun x => (step x).2)

/-- The depths after all walks, and nothing else, satisfy `Depth`. -/
theorem rounds_depth (acyclic : Acyclic g) (h : Rounds g xs c c') (start : ∀ x, c x = 0) (x : α) :
    Depth g xs.reverse x n ↔ c' x = n := by
  have final := rounds_depth_from acyclic h
    (fun x => by rw [start x]; exact .unseen) (fun x n depth => by cases depth; exact start x) x
  rw [List.append_nil] at final
  exact ⟨final.2 n, fun same => same ▸ final.1⟩

end Successors
