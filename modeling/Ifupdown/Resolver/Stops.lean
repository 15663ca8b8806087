import Ifupdown.Resolver.BringUpOrder

/-! Where a bring-up that fails stops, and what it has counted by then. -/
namespace Ifupdown

open Successors

def FreshEdge (G : DepGraph α) (c : α → Nat) (path : List α) (i d : α) : Prop := FreeEdge G c i d ∧ d ∉ path

/-- A bring-up that comes to `d` gets on to `f` without coming back to the path. -/
def LeadsOn (G : DepGraph α) (c : α → Nat) (path : List α) (d f : α) : Prop :=
  c d = 0 ∧ d ∉ path ∧ Relation.ReflTransGen (FreshEdge G c path) d f

/-- A bring-up of `i` that `f` stops: the interfaces that wait for each other in the end, each with the
dependencies that it has counted, up to the first that leads on to `f`. -/
inductive Halts (G : DepGraph α) (c : α → Nat) (f : α) : List α → α → List (α × List α) → Prop where
  | here : Halts G c f path f [(f, if G.template f then [] else G.req f)]
  | further (other : i ≠ f) (listed : G.req i = front ++ d :: back)
      (first : ∀ e ∈ front, ¬ LeadsOn G c (i :: path) e f) (leads : LeadsOn G c (i :: path) d f)
      (rest : Halts G c f (i :: path) d stack) : Halts G c f path i ((i, front ++ [d]) :: stack)

def counted (stack : List (α × List α)) : List α := stack.flatMap Prod.snd

def UpEdge (G : DepGraph α) (c : α → Nat) (path : List α) (s : Finset α) (i d : α) : Prop := FreshEdge G c path i d ∧ i ∈ s

/-- Something that has been brought up for the dependency `d`, through interfaces that are all in `s`. -/
def BroughtUp (G : DepGraph α) (c : α → Nat) (path : List α) (s : Finset α) (d w : α) : Prop :=
  c d = 0 ∧ d ∉ path ∧ w ∈ s ∧ Relation.ReflTransGen (UpEdge G c path s) d w

def Explored (G : DepGraph α) (c : α → Nat) (s : Finset α) (w : α) : List α → List (α × List α) → Prop
  | _, [] => False
  | path, (i, cut) :: stack => (∃ e ∈ cut, BroughtUp G c (i :: path) s e w) ∨ Explored G c s w (i :: path) stack

def HaltsIn (G : DepGraph α) (c : α → Nat) (f : α) (path : List α) (stack : List (α × List α)) (cut : List α) : Task α → Prop
  | .run i _ => cut = [] ∧ Halts G c f path i stack
  | .deps ds => ∃ front d back, ds = front ++ d :: back ∧ cut = front ++ [d] ∧ (∀ e ∈ front, ¬ LeadsOn G c path e f) ∧
      LeadsOn G c path d f ∧ Halts G c f path d stack

variable {α : Type} [DecidableEq α] {G : DepGraph α} {path : List α} {task : Task α}
  {c c' c₀ : α → Nat} {ok : Bool} {ev : List (Event α)} {done : Finset α} {root : Option α} {d e f i w x : α}
  {stack : List (α × List α)}

section
omit [DecidableEq α]

theorem LeadsOn.fresh (leads : LeadsOn G c path d f) : c f = 0 ∧ f ∉ path := by
  obtain ⟨zero, off, walk⟩ := leads
  induction walk with
  | refl => exact ⟨zero, off⟩
  | tail _ edge _ => exact ⟨edge.1.2, edge.2⟩

theorem FreshEdge.shorter (edge : FreshEdge G c (i :: path) e d) : FreshEdge G c path e d :=
  ⟨edge.1, fun on => edge.2 (List.mem_cons_of_mem _ on)⟩

theorem LeadsOn.shorter (leads : LeadsOn G c (i :: path) d f) : LeadsOn G c path d f :=
  ⟨leads.1, fun on => leads.2.1 (List.mem_cons_of_mem _ on), Relation.ReflTransGen.mono (fun _ _ edge => edge.shorter) _ _ leads.2.2⟩

theorem LeadsOn.from_ (edge : d ∈ G.req i) (leads : LeadsOn G c (i :: path) d f) :
    Relation.ReflTransGen (FreshEdge G c path) i f :=
  .head ⟨⟨edge, leads.1⟩, leads.shorter.2.1⟩ leads.shorter.2.2

theorem Halts.last (halts : Halts G c f path i stack) : f ∈ stack.map Prod.fst := by
  induction halts with
  | here => exact List.mem_singleton_self f
  | further _ _ _ _ _ ih => exact List.mem_cons_of_mem _ ih

theorem Halts.head (halts : Halts G c f path i stack) : i ∈ stack.map Prod.fst := by
  cases halts <;> exact List.mem_cons_self

theorem Halts.leads (halts : Halts G c f path i stack) : Relation.ReflTransGen (FreshEdge G c path) i f := by
  cases halts with
  | here => exact .refl
  | further _ listed _ leads _ => exact leads.from_ (by rw [listed]; simp)

/-- The interfaces on a stack are uncounted, but for the first one, and none of them is on the path. -/
theorem Halts.fresh (halts : Halts G c f path i stack) {p : α} (waits : p ∈ stack.map Prod.fst) :
    p = i ∨ c p = 0 ∧ p ∉ i :: path := by
  induction halts with
  | here => exact Or.inl (List.mem_singleton.mp waits)
  | @further i front d back path stack _ _ _ leads _ ih =>
    rcases List.mem_cons.mp waits with same | deeper
    · exact Or.inl same
    · rcases ih deeper with rfl | ⟨zero, off⟩
      · exact Or.inr ⟨leads.1, leads.2.1⟩
      · exact Or.inr ⟨zero, fun on => off (List.mem_cons_of_mem _ on)⟩

theorem Halts.nodup (halts : Halts G c f path i stack) : (stack.map Prod.fst).Nodup := by
  induction halts with
  | here => exact List.nodup_singleton f
  | further _ _ _ leads rest ih =>
    refine List.nodup_cons.mpr ⟨fun again => ?_, ih⟩
    rcases rest.fresh again with same | ⟨-, off⟩
    · exact leads.2.1 (List.mem_cons.mpr (Or.inl same.symm))
    · exact off (List.mem_cons_of_mem _ List.mem_cons_self)

theorem Halts.starts (halts : Halts G c f path i stack) : ∃ later, stack.map Prod.fst = i :: later := by
  cases halts <;> exact ⟨_, rfl⟩

theorem Halts.sublist (halts : Halts G c f path i stack) : ∀ entry ∈ stack, entry.2.Sublist (G.req entry.1) := by
  induction halts with
  | here =>
    refine List.forall_mem_singleton.mpr ?_
    split
    · exact List.nil_sublist _
    · exact List.Sublist.refl _
  | @further i front d back path stack _ listed _ _ _ ih =>
    refine List.forall_mem_cons.mpr ⟨?_, ih⟩
    rw [listed]
    exact (List.singleton_sublist.mpr List.mem_cons_self).append_left front

theorem Halts.onward (halts : Halts G c f path i stack) {p : α} (waits : p ∈ stack.map Prod.fst) :
    Relation.ReflTransGen (FreshEdge G c path) p f := by
  induction halts with
  | here =>
    rw [List.mem_singleton.mp waits]
  | further other listed first leads rest ih =>
    rcases List.mem_cons.mp waits with rfl | deeper
    · exact leads.from_ (by rw [listed]; simp)
    · exact Relation.ReflTransGen.mono (fun _ _ edge => edge.shorter) _ _ (ih deeper)

/-- The interface above has not counted any of a stack before it came to the first. -/
theorem Halts.unlisted {front : List α} (rest : Halts G c f (i :: path) d stack) (leads : LeadsOn G c (i :: path) d f)
    (first : ∀ e ∈ front, ¬ LeadsOn G c (i :: path) e f) {q : α} (waits : q ∈ stack.map Prod.fst) : q ∉ front := by
  intro early
  rcases rest.fresh waits with rfl | ⟨zero, off⟩
  · exact first q early leads
  · exact first q early ⟨zero, fun on => off (List.mem_cons_of_mem _ on), rest.onward waits⟩

end

section
variable {s t : Finset α}
omit [DecidableEq α]

theorem BroughtUp.mono (up : BroughtUp G c path s d w) (subset : s ⊆ t) : BroughtUp G c path t d w :=
  ⟨up.1, up.2.1, subset up.2.2.1, Relation.ReflTransGen.mono (fun _ _ edge => And.imp_right (subset ·) edge) _ _ up.2.2.2⟩

theorem Explored.mono (explored : Explored G c s w path stack) (subset : s ⊆ t) : Explored G c t w path stack := by
  induction stack generalizing path with
  | nil => exact explored
  | cons entry stack ih =>
    refine explored.imp ?_ ih
    rintro ⟨e, member, up⟩
    exact ⟨e, member, up.mono subset⟩

end

theorem up_broughtUp (h : Up G path task c ok c' ev) (success : ok = true) (low : ∀ x, c₀ x ≤ c x) (up : w ∈ ups ev) :
    (∃ i, task.root = some i ∧ i ∉ path ∧ Relation.ReflTransGen (UpEdge G c₀ path (ups ev)) i w) ∨
      ∃ e ∈ task.rest, BroughtUp G c₀ path (ups ev) e w := by
  induction h with
  | pending | nil => simp at up
  | template | stopped | failed | broken => cases success
  | @done path i c c' ev l fresh _ _ ih =>
    rw [ups_append, ups_succeeded, Finset.mem_union, Finset.mem_singleton] at up
    have own : i ∈ ups (ev ++ succeeded i l upPhases) := by
      rw [ups_append, ups_succeeded]
      exact Finset.mem_union_right _ (Finset.mem_singleton_self i)
    have subset : ups ev ⊆ ups (ev ++ succeeded i l upPhases) := by
      rw [ups_append]
      exact Finset.subset_union_left
    rcases up with early | rfl
    · obtain ⟨_, none, -⟩ | ⟨e, edge, zero, off, -, walk⟩ := ih success low early
      · cases none
      · have shorter (a b : α) (edge : UpEdge G c₀ (i :: path) (ups ev) a b) : UpEdge G c₀ path (ups (ev ++ succeeded i l upPhases)) a b :=
          ⟨edge.1.shorter, subset edge.2⟩
        refine Or.inl ⟨i, rfl, fresh, .head ⟨⟨⟨edge, zero⟩, fun on => off (List.mem_cons_of_mem _ on)⟩, own⟩ ?_⟩
        exact Relation.ReflTransGen.mono shorter _ _ walk
    · exact Or.inl ⟨w, rfl, fresh, .refl⟩
  | @held c path ds d _ _ _ _ _ ih =>
    have grown (x) : c₀ x ≤ ref c d x := (low x).trans (by rw [ref_apply]; omega)
    obtain ⟨_, none, -⟩ | ⟨e, listed, leads⟩ := ih success grown up
    · cases none
    · exact Or.inr ⟨e, List.mem_cons_of_mem _ listed, leads⟩
  | @raised c path d c₁ ev₁ ds ok c' ev₂ uncounted run _ ihRun ihRest =>
    have grown (x) : c₀ x ≤ ref c d x := (low x).trans (by rw [ref_apply]; omega)
    have zero : c₀ d = 0 := Nat.le_zero.mp (uncounted ▸ low d)
    rw [ups_append, Finset.mem_union] at up
    rw [ups_append]
    rcases up with early | late
    · obtain ⟨_, same, off, walk⟩ | ⟨_, none, -⟩ := ihRun rfl grown early
      · obtain rfl := Option.some.inj same
        have up : BroughtUp G c₀ path (ups ev₁) d w := ⟨zero, off, early, walk⟩
        exact Or.inr ⟨d, List.mem_cons_self, up.mono Finset.subset_union_left⟩
      · cases none
    · obtain ⟨_, none, -⟩ | ⟨e, listed, leads⟩ := ihRest success (fun x => (grown x).trans (up_mono run x)) late
      · cases none
      · exact Or.inr ⟨e, List.mem_cons_of_mem _ listed, leads.mono Finset.subset_union_right⟩

/-- A bring-up that has brought up `done`, seen from counts before it. -/
structure Underway (G : DepGraph α) (c₀ : α → Nat) (path : List α) (done : Finset α) (root : Option α) (c : α → Nat) :
    Prop where
  low : ∀ x, c₀ x ≤ c x
  known : ∀ x, 0 < c x → 0 < c₀ x ∨ x ∈ done ∨ x ∈ path ∨ root = some x
  closed : ∀ u ∈ done, ∀ d ∈ G.req u, 0 < c₀ d ∨ d ∈ done ∨ d ∈ path
  counted : ∀ u ∈ done, 0 < c u

section
omit [DecidableEq α]

theorem underway_start (c : α → Nat) : Underway G c [] ∅ root c where
  low _ := Nat.le_refl _
  known _ counted := Or.inl counted
  closed := by simp
  counted := by simp

theorem Underway.enter (under : Underway G c₀ path done (some i) c) : Underway G c₀ (i :: path) done none c where
  low := under.low
  known x positive := by
    rcases under.known x positive with before | up | waits | same
    · exact Or.inl before
    · exact Or.inr (Or.inl up)
    · exact Or.inr (Or.inr (Or.inl (List.mem_cons_of_mem _ waits)))
    · exact Or.inr (Or.inr (Or.inl (Option.some.inj same ▸ List.mem_cons_self)))
  closed u up d edge := (under.closed u up d edge).imp_right fun known => known.imp_right (List.mem_cons_of_mem _)
  counted := under.counted

end

theorem Underway.ref (under : Underway G c₀ path done none c) (entry : 0 < c d ∨ root = some d) :
    Underway G c₀ path done root (ref c d) where
  low x := (under.low x).trans (by rw [ref_apply]; omega)
  known x positive := by
    rw [ref_apply] at positive
    have weaken (positive : 0 < c x) : 0 < c₀ x ∨ x ∈ done ∨ x ∈ path ∨ root = some x :=
      (under.known x positive).imp_right fun known => known.imp_right fun known => known.imp_right nofun
    by_cases same : x = d
    · subst same
      rcases entry with counted | named
      · exact weaken counted
      · exact Or.inr (Or.inr (Or.inr named))
    · rw [if_neg same] at positive
      exact weaken positive
  closed := under.closed
  counted u up := (under.counted u up).trans_le (by rw [ref_apply]; omega)

theorem Underway.later (under : Underway G c₀ path done none c) (run : Up G path (.run d d) (Ifupdown.ref c d) true c' ev) :
    Underway G c₀ path (done ∪ ups ev) none c' := by
  have known (x : α) (positive : 0 < c' x) : 0 < c₀ x ∨ x ∈ done ∪ ups ev ∨ x ∈ path := by
    rw [Finset.mem_union]
    rcases up_counted run rfl positive with before | up | waits
    · rw [ref_apply] at before
      by_cases same : x = d
      · subst same
        exact (up_run_true run).elim (fun waits => Or.inr (Or.inr waits)) fun up => Or.inr (Or.inl (Or.inr up))
      · rw [if_neg same] at before
        rcases under.known x before with first | up | waits | none
        · exact Or.inl first
        · exact Or.inr (Or.inl (Or.inl up))
        · exact Or.inr (Or.inr waits)
        · cases none
    · exact Or.inr (Or.inl (Or.inr up))
    · exact Or.inr (Or.inr waits)
  have grown (x : α) : c x ≤ c' x := Nat.le_trans (by rw [ref_apply]; omega) (up_mono run x)
  refine ⟨fun x => (under.low x).trans (grown x), fun x positive => ?_, fun u up d edge => ?_, fun u up => ?_⟩
  · exact (known x positive).imp_right fun known => known.imp_right Or.inl
  · rcases Finset.mem_union.mp up with old | new
    · rw [Finset.mem_union]
      rcases under.closed u old d edge with before | up | waits
      · exact Or.inl before
      · exact Or.inr (Or.inl (Or.inl up))
      · exact Or.inr (Or.inr waits)
    · exact known d (up_dependency_counted run new edge)
  · rcases Finset.mem_union.mp up with old | new
    · exact (under.counted u old).trans_le (grown u)
    · obtain ⟨off, same | zero⟩ := up_ups_fresh run new
      · obtain rfl : d = u := Option.some.inj same
        exact Nat.lt_of_lt_of_le (by rw [ref_self]; omega) (up_mono run d)
      · exact zero.2

/-- What is counted leads on to nothing that is not. -/
theorem Underway.blocked (under : Underway G c₀ path done none c) (counted : 0 < c e) (uncounted : c f = 0) :
    ¬ LeadsOn G c₀ path e f := by
  rintro ⟨zero, off, walk⟩
  have start : e ∈ done := by
    rcases under.known e counted with before | up | waits | none
    · omega
    · exact up
    · exact absurd waits off
    · cases none
  have inside {b : α} (walk : Relation.ReflTransGen (FreshEdge G c₀ path) e b) : b ∈ done := by
    induction walk with
    | refl => exact start
    | @tail a b _ edge ih =>
      rcases under.closed a ih b edge.1.1 with before | up | waits
      · have free := edge.1.2
        omega
      · exact up
      · exact absurd waits edge.2
  have positive := under.counted f (inside walk)
  omega

/-- What a failed bring-up leaves: the cause, and the counts of what it has brought up and of what it has
got to count for those that wait. -/
structure Stopped (G : DepGraph α) (c₀ : α → Nat) (path : List α) (root : Option α) (c : α → Nat) (f : α)
    (stack : List (α × List α)) (cut : List α) (c' : α → Nat) (ev : List (Event α)) : Prop where
  cause : failures ev = [f] ∧ G.template f = false ∨ failures ev = [] ∧ G.template f = true
  counts : ∀ x, c' x = c x + (if x ∈ ups ev then 1 else 0) + edges G.req (ups ev) x + (cut ++ counted stack).count x
  explored : ∀ w ∈ ups ev, (∃ e ∈ cut, BroughtUp G c₀ path (ups ev) e w) ∨ Explored G c₀ (ups ev) w path stack
  entered : ∀ p ∈ stack.map Prod.fst, root = some p ∨ c p = 0
  waiting : ∀ p ∈ stack.map Prod.fst, p ∉ ups ev
  known : ∀ x, 0 < c' x → 0 < c x ∨ x ∈ ups ev ∨ x ∈ stack.map Prod.fst ∨ x ∈ path

theorem up_run_fresh (run : Up G path (.run i l) c false c' ev) : i ∉ path := by
  cases run <;> assumption

/-- The interface of the task itself fails, or something below it. -/
theorem up_halts (h : Up G path task c ok c' ev) (failed : ok = false) (under : Underway G c₀ path done task.root c) :
    ∃ f stack cut, HaltsIn G c₀ f path stack cut task ∧ Stopped G c₀ path task.root c f stack cut c' ev := by
  induction h generalizing done with
  | pending | done | nil => cases failed
  | @template path i l c fresh template =>
    refine ⟨i, [(i, [])], [], ⟨rfl, ?_⟩, Or.inr ⟨rfl, template⟩, ?_, by simp, ?_, by simp, fun x => Or.inl⟩
    · have here : Halts G c₀ i path i _ := .here
      rwa [template, if_pos rfl] at here
    · simp [counted]
    · rintro p same
      rw [List.mem_singleton.mp same]
      exact Or.inl rfl
  | @stopped path i c c' ev l fresh ordinary deps ih =>
    obtain ⟨f, stack, _, ⟨front, d, back, listed, rfl, first, leads, rest⟩, stopped⟩ := ih rfl under.enter
    have other : i ≠ f := by
      rintro rfl
      exact leads.fresh.2 List.mem_cons_self
    refine ⟨f, (i, front ++ [d]) :: stack, [], ⟨rfl, .further other listed first leads rest⟩, stopped.cause, fun x => ?_,
      fun w up => Or.inr (stopped.explored w up), ?_, ?_, fun x counted => ?_⟩
    · exact stopped.counts x
    · intro p waits
      rcases List.mem_cons.mp waits with rfl | deeper
      · exact Or.inl rfl
      · exact (stopped.entered p deeper).imp (fun none => by cases none) id
    · intro p waits up
      rcases List.mem_cons.mp waits with rfl | deeper
      · exact (up_ups_fresh deps up).1 List.mem_cons_self
      · exact stopped.waiting p deeper up
    · refine (stopped.known x counted).imp_right fun known => known.imp_right fun known => ?_
      rcases known with deeper | waits
      · exact Or.inl (List.mem_cons_of_mem _ deeper)
      · exact (List.mem_cons.mp waits).imp (fun own => List.mem_cons.mpr (Or.inl own)) id
  | @failed path i c c' ev l last fresh ordinary deps phases _ =>
    have same : ups (ev ++ last) = ups ev := by rw [ups_append, ups_phasesFail phases, Finset.union_empty]
    refine ⟨i, [(i, G.req i)], [], ⟨rfl, ?_⟩, Or.inl ⟨?_, ordinary⟩, fun x => ?_, fun w up => ?_, ?_, ?_,
      fun x counted => ?_⟩
    · have here : Halts G c₀ i path i _ := .here
      rwa [ordinary, if_neg Bool.false_ne_true] at here
    · rw [failures_append, up_success_failures deps rfl, failures_phasesFail phases]
      rfl
    · have grown := up_counts deps rfl x
      rw [same]
      simpa [counted, Task.rest] using grown
    · rw [same] at up ⊢
      obtain ⟨_, none, -⟩ | ⟨e, edge, leads⟩ := up_broughtUp deps rfl under.low up
      · cases none
      · exact Or.inr (Or.inl ⟨e, edge, leads⟩)
    · rintro p own
      rw [List.mem_singleton.mp own]
      exact Or.inl rfl
    · rintro p own up
      rw [List.mem_singleton.mp own, same] at up
      exact (up_ups_fresh deps up).1 List.mem_cons_self
    · rw [same]
      refine (up_counted deps rfl counted).imp_right fun known => known.imp_right fun waits => ?_
      exact (List.mem_cons.mp waits).imp (fun own => List.mem_singleton.mpr own) id
  | @held c path ds d ok c' ev positive rest ih =>
    obtain ⟨f, stack, _, ⟨front, d', back, rfl, rfl, first, leads, halts⟩, stopped⟩ := ih failed (under.ref (Or.inl positive))
    have zero (p) (waits : p ∈ stack.map Prod.fst) : c p = 0 := by
      have uncounted := (stopped.entered p waits).resolve_left fun none => by cases none
      rw [ref_apply] at uncounted
      omega
    refine ⟨f, stack, _, ⟨d :: front, d', back, rfl, rfl, ?_, leads, halts⟩, stopped.cause, fun x => ?_, fun w up => ?_,
      fun p waits => Or.inr (zero p waits), stopped.waiting, fun x counted => ?_⟩
    · exact List.forall_mem_cons.mpr ⟨under.blocked positive (zero f halts.last), first⟩
    · rw [stopped.counts x, ref_apply, List.cons_append, List.cons_append, List.count_cons]
      simp only [beq_iff_eq, eq_comm (a := x)]
      omega
    · refine (stopped.explored w up).imp_left ?_
      rintro ⟨e, member, leads⟩
      exact ⟨e, List.mem_cons_of_mem _ member, leads⟩
    · refine (stopped.known x counted).imp_left fun before => ?_
      rw [ref_apply] at before
      split at before
      · rename_i same
        exact same ▸ positive
      · exact before
  | @raised c path d c₁ ev₁ ds ok c' ev₂ uncounted run rest _ ihRest =>
    obtain ⟨f, stack, _, ⟨front, d', back, rfl, rfl, first, leads, halts⟩, stopped⟩ := ihRest failed (under.later run)
    have low (x) : ref c d x ≤ c₁ x := up_mono run x
    have zero₁ (p) (waits : p ∈ stack.map Prod.fst) : c₁ p = 0 :=
      (stopped.entered p waits).resolve_left fun none => by cases none
    have zero (p) (waits : p ∈ stack.map Prod.fst) : c p = 0 := by
      have uncounted := zero₁ p waits
      have grown := low p
      rw [ref_apply] at grown
      omega
    have positive : 0 < c₁ d := Nat.lt_of_lt_of_le (by rw [ref_self]; omega) (low d)
    refine ⟨f, stack, _, ⟨d :: front, d', back, rfl, rfl, ?_, leads, halts⟩, ?_, fun x => ?_, fun w up => ?_,
      fun p waits => Or.inr (zero p waits), fun p waits up => ?_, fun x counted => ?_⟩
    · exact List.forall_mem_cons.mpr ⟨(under.later run).blocked positive (zero₁ f halts.last), first⟩
    · rw [failures_append, up_success_failures run rfl]
      exact stopped.cause
    · have apart := ups_disjoint run rest
      rw [stopped.counts x, up_counts run rfl x, ref_apply, ups_append, edges_union apart, indicator_union apart,
        List.cons_append, List.cons_append, List.count_cons]
      simp only [Task.rest, List.count_nil, beq_iff_eq, eq_comm (a := x)]
      omega
    · rw [ups_append, Finset.mem_union] at up
      rw [ups_append]
      rcases up with early | late
      · have grown (x) : c₀ x ≤ ref c d x := (under.low x).trans (by rw [ref_apply]; omega)
        obtain ⟨_, same, off, walk⟩ | ⟨_, none, -⟩ := up_broughtUp run rfl grown early
        · obtain rfl := Option.some.inj same
          have up : BroughtUp G c₀ path (ups ev₁) d w := ⟨Nat.le_zero.mp (uncounted ▸ under.low d), off, early, walk⟩
          exact Or.inl ⟨d, List.mem_cons_self, up.mono Finset.subset_union_left⟩
        · cases none
      · refine (stopped.explored w late).imp ?_ fun explored => explored.mono Finset.subset_union_right
        rintro ⟨e, member, leads⟩
        exact ⟨e, List.mem_cons_of_mem _ member, leads.mono Finset.subset_union_right⟩
    · rw [ups_append, Finset.mem_union] at up
      rcases up with early | late
      · obtain ⟨-, same | ⟨-, counted⟩⟩ := up_ups_fresh run early
        · obtain rfl : d = p := Option.some.inj same
          have none := zero₁ d waits
          omega
        · have none := zero₁ p waits
          omega
      · exact stopped.waiting p waits late
    · rw [ups_append, Finset.mem_union]
      rcases stopped.known x counted with before | up | waits
      · rcases up_counted run rfl before with first | up | waits
        · by_cases same : x = d
          · subst same
            exact (up_run_true run).elim (fun waits => Or.inr (Or.inr (Or.inr waits))) fun up => Or.inr (Or.inl (Or.inl up))
          · rw [ref_apply, if_neg same] at first
            exact Or.inl first
        · exact Or.inr (Or.inl (Or.inl up))
        · exact Or.inr (Or.inr (Or.inr waits))
      · exact Or.inr (Or.inl (Or.inr up))
      · exact Or.inr (Or.inr waits)
  | @broken c path d c' ev ds uncounted run ih =>
    obtain ⟨f, stack, _, ⟨rfl, halts⟩, stopped⟩ := ih rfl (under.ref (Or.inr rfl))
    refine ⟨f, stack, _, ⟨[], d, ds, rfl, rfl, by simp, ⟨Nat.le_zero.mp (uncounted ▸ under.low d), up_run_fresh run, halts.leads⟩,
      halts⟩, stopped.cause, fun x => ?_, fun w up => Or.inr ?_, fun p waits => Or.inr ?_, stopped.waiting, fun x counted => ?_⟩
    · rw [stopped.counts x, ref_apply, List.nil_append, List.nil_append, List.singleton_append, List.count_cons]
      simp only [beq_iff_eq, eq_comm (a := x)]
      omega
    · exact (stopped.explored w up).resolve_left (by simp)
    · rcases stopped.entered p waits with same | zero
      · exact Option.some.inj same ▸ uncounted
      · rw [ref_apply] at zero
        omega
    · rcases stopped.known x counted with before | known
      · by_cases same : x = d
        · exact Or.inr (Or.inr (Or.inl (same ▸ halts.head)))
        · rw [ref_apply, if_neg same] at before
          exact Or.inl before
      · exact Or.inr known

end Ifupdown
