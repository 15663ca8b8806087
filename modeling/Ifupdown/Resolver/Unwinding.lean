import Ifupdown.Resolver.Repeats
import Ifupdown.Resolver.Progress

/-! A teardown that takes back what a bring-up has counted. -/
namespace Ifupdown

open Successors

variable {α : Type} [DecidableEq α] {G : DepGraph α} {path : List α} {task : Task α} {t s : Finset α}
  {c c' c₀ c₁ own rank owed : α → Nat} {ok : Bool} {ev : List (Event α)} {d i k l root : α} {ds : List α}

def Falling (G : DepGraph α) (c : α → Nat) (root i d : α) : Prop := Through G c root i d ∧ G.explicit i = false

/-- An interface that is taken down without coming to one that was counted before. -/
def Harmless (G : DepGraph α) (c : α → Nat) (root i : α) : Prop :=
  i ≠ root ∧ c i = 0 ∧ G.explicit i = false ∧ ∀ k, Relation.ReflTransGen (Falling G c root) i k → c k = 0

omit [DecidableEq α] in
theorem Harmless.deps (harmless : Harmless G c root i) (edge : d ∈ G.req i) :
    c d = 0 ∧ (d ≠ root → G.explicit d = false → Harmless G c root d) := by
  obtain ⟨other, uncounted, implicit, reaches⟩ := harmless
  have step : Falling G c root i d := ⟨⟨other, uncounted, edge⟩, implicit⟩
  have zero := reaches d (.single step)
  exact ⟨zero, fun other implicit => ⟨other, zero, implicit, fun k walk => reaches k (.head step walk)⟩⟩

/-- The interfaces that are to be taken down once each, `root` first, for all that they require to have the
counts `c₀` again. Those that have no count of their own wait for each other in the order of their ranks. -/
structure Undoing (G : DepGraph α) (c₀ : α → Nat) (root : α) (t : Finset α) (own rank : α → Nat) : Prop where
  rooted : root ∈ t ∧ own root = 0 ∧ rank root = 0
  uncounted : ∀ u ∈ t, c₀ u = 0
  implicit : ∀ u ∈ t, u ≠ root → G.explicit u = false
  held : ∀ u ∈ t, ∀ d ∈ G.req u, 0 < c₀ d → G.explicit d = true ∨ 1 < c₀ d
  deps : ∀ u ∈ t, ∀ d ∈ G.req u, 0 < c₀ d ∨ d ∈ t ∨ G.explicit d = true ∨ Harmless G c₀ root d
  apart : ∀ i, Harmless G c₀ root i → i ∉ t
  low : ∀ u ∈ t, own u ≤ 1
  distinct : ∀ u ∈ t, ∀ w ∈ t, own u = 0 → own w = 0 → rank u = rank w → u = w
  forward : ∀ u ∈ t, u ≠ root → own u = 0 →
    edges G.req t u ≤ 2 ∧ ∃ p ∈ t, own p = 0 ∧ rank p + 1 = rank u ∧ (G.req p).count u = 1
  backward : ∀ u ∈ t, u ≠ root → own u = 0 → ∀ w ∈ t, u ∈ G.req w → own w = 0 ∧ (rank w + 1 = rank u ∨ rank u ≤ rank w)
  asked : ∀ u ∈ t, u ≠ root → own u = 1 → 0 < edges G.req t u
  acyclic : ∀ s ⊆ t, (∀ u ∈ s, u ≠ root ∧ ∃ w ∈ s, u ∈ G.req w ∧ (own u = 0 → rank w + 1 = rank u)) → s = ∅

/-- Such a teardown that has entered `s`, and that is still to count down `owed` edges from there. -/
structure Unwound (G : DepGraph α) (c₀ : α → Nat) (root : α) (t : Finset α) (own rank : α → Nat) (path : List α)
    (s : Finset α) (owed c : α → Nat) : Prop where
  top : root ∈ s
  within : s ⊆ t
  kept : ∀ k, 0 < c₀ k → c k = c₀ k + edges G.req (t \ s) k + owed k
  counts : ∀ u ∈ t, u ∉ s → c u = own u + edges G.req (t \ s) u + owed u
  waits : ∀ u ∈ t, u ∉ s → own u = 1 → 0 < edges G.req (t \ s) u + owed u
  next : ∀ u ∈ t, u ∉ s → own u = 0 → ∀ p ∈ t, own p = 0 → rank p + 1 = rank u → owed u = if p ∈ s then 1 else 0
  early : ∀ u ∈ s, own u = 0 → ∀ w ∈ t, own w = 0 → rank w < rank u → w ∈ s
  shut : ∀ u ∈ s, u ≠ root → own u = 1 ∨ u ∉ path → edges G.req (t \ s) u + owed u = 0

def Expected (G : DepGraph α) (c₀ : α → Nat) (t : Finset α) (root d : α) : Prop :=
  (0 < c₀ d → G.explicit d = true ∨ 1 < c₀ d) ∧ (0 < c₀ d ∨ d ∈ t ∨ G.explicit d = true ∨ Harmless G c₀ root d)

/-- A task that the teardown comes to: an interface is entered when it is its turn. -/
def Posed (G : DepGraph α) (c₀ : α → Nat) (root : α) (t : Finset α) (own rank : α → Nat) (path : List α) (s : Finset α)
    (owed c : α → Nat) : Task α → Prop
  | .run i _ => (i ∈ path ∨ Harmless G c₀ root i) ∧ Unwound G c₀ root t own rank path s owed c ∨
      (i ∈ t ∧ i ∉ s ∧ (own i = 0 → owed i = 0 ∧ ∀ v ∈ t, own v = 0 → rank i < rank v → owed v = 0)) ∧
        Unwound G c₀ root t own rank (i :: path) (insert i s) (fun x => owed x + (G.req i).count x) c
  | .deps ds => (∀ d ∈ ds, Expected G c₀ t root d) ∧ Unwound G c₀ root t own rank path s (fun x => owed x + ds.count x) c

theorem Unwound.congr {owed' : α → Nat} {path' : List α} (unwound : Unwound G c₀ root t own rank path s owed c)
    (kept : ∀ k, 0 < c₀ k → c' k = c k ∧ owed' k = owed k) (waits : ∀ u ∈ t, u ∉ s → c' u = c u ∧ owed' u = owed u)
    (shut : ∀ u ∈ s, u ≠ root → owed' u = owed u ∧ (u ∉ path' → u ∉ path)) :
    Unwound G c₀ root t own rank path' s owed' c' where
  top := unwound.top
  within := unwound.within
  kept k counted := by
    rw [(kept k counted).1, (kept k counted).2]
    exact unwound.kept k counted
  counts u member new := by
    rw [(waits u member new).1, (waits u member new).2]
    exact unwound.counts u member new
  waits u member new := by
    rw [(waits u member new).2]
    exact unwound.waits u member new
  next u member new := by
    rw [(waits u member new).2]
    exact unwound.next u member new
  early := unwound.early
  shut u entered other kind := by
    rw [(shut u entered other).1]
    exact unwound.shut u entered other (kind.imp_right (shut u entered other).2)

theorem Unwound.aside (unwound : Unwound G c₀ root t own rank path s owed c) (undoing : Undoing G c₀ root t own rank)
    (harmless : Harmless G c₀ root i) : Unwound G c₀ root t own rank (i :: path) s (fun x => owed x + (G.req i).count x) c := by
  have none (x : α) (apart : x ∉ G.req i) : owed x + (G.req i).count x = owed x := by
    rw [List.count_eq_zero.mpr apart, Nat.add_zero]
  have foreign (u : α) (member : u ∈ t) (deeper : u ≠ root) : u ∉ G.req i := fun edge =>
    undoing.apart u ((harmless.deps edge).2 deeper (undoing.implicit u member deeper)) member
  refine unwound.congr (fun k counted => ⟨rfl, none k fun edge => ?_⟩) (fun u member new => ⟨rfl, none u ?_⟩)
    fun u entered deeper => ⟨none u (foreign u (unwound.within entered) deeper), fun off on => off (List.mem_cons_of_mem _ on)⟩
  · have zero := (harmless.deps edge).1
    omega
  · refine foreign u member ?_
    rintro rfl
    exact new unwound.top

theorem Unwound.leave (unwound : Unwound G c₀ root t own rank (i :: path) s owed c)
    (undoing : Undoing G c₀ root t own rank) (uncounted : c₀ i = 0) (entered : i ∈ t → i ∈ s)
    (paid : i ∈ s → own i = 0 → edges G.req (t \ s) i + owed i = 0) :
    Unwound G c₀ root t own rank path s owed (unref c i) := by
  have same (x : α) (other : x ≠ i) : unref c i x = c x := by rw [unref_apply, if_neg other, Nat.sub_zero]
  refine ⟨unwound.top, unwound.within, fun k counted => ?_, fun u member new => ?_, unwound.waits, unwound.next, unwound.early,
    fun u inside other kind => ?_⟩
  · rw [same k (by rintro rfl; omega)]
    exact unwound.kept k counted
  · rw [same u (by rintro rfl; exact new (entered member))]
    exact unwound.counts u member new
  · by_cases single : own u = 1
    · exact unwound.shut u inside other (Or.inl single)
    · have off := kind.resolve_left single
      by_cases here : u = i
      · subst here
        have low := undoing.low u (unwound.within inside)
        exact paid inside (by omega)
      · exact unwound.shut u inside other (Or.inr (List.not_mem_cons_of_ne_of_not_mem here off))

/-- Counting down an edge pays for it, unless its interface is entered now. -/
theorem Unwound.pay (unwound : Unwound G c₀ root t own rank path s (fun x => owed x + (d :: ds).count x) c)
    (left : d ∈ t → d ∉ s → own d = 1 ∧ 0 < edges G.req (t \ s) d + (owed d + ds.count d)) :
    Unwound G c₀ root t own rank path s (fun x => owed x + ds.count x) (unref c d) := by
  have count (x : α) (other : x ≠ d) : (d :: ds).count x = ds.count x := List.count_cons_of_ne (Ne.symm other)
  refine ⟨unwound.top, unwound.within, fun k counted => ?_, fun u member new => ?_, fun u member new single => ?_,
    fun u member new zero => ?_, unwound.early, fun u entered other kind => ?_⟩
  · have before := unwound.kept k counted
    rw [unref_apply, before, List.count_cons]
    simp only [beq_iff_eq, eq_comm (a := k)]
    split <;> omega
  · have before := unwound.counts u member new
    rw [unref_apply, before, List.count_cons]
    simp only [beq_iff_eq, eq_comm (a := u)]
    split <;> omega
  · by_cases same : u = d
    · subst same
      exact (left member new).2
    · have positive := unwound.waits u member new single
      rwa [count u same] at positive
  · have other : u ≠ d := by
      rintro rfl
      have one := (left member new).1
      omega
    have before := unwound.next u member new zero
    rwa [count u other] at before
  · have none := unwound.shut u entered other kind
    rw [List.count_cons] at none
    omega

/-- When an interface without a count of its own is counted down, the one before it waits for it, and the ones
behind it are not due. -/
theorem Unwound.turn (unwound : Unwound G c₀ root t own rank path s owed c) (undoing : Undoing G c₀ root t own rank)
    (member : d ∈ t) (new : d ∉ s) (zero : own d = 0) (due : 0 < owed d) :
    owed d = 1 ∧ edges G.req (t \ s) d ≤ 1 ∧ (∀ w ∈ t, own w = 0 → rank w < rank d → w ∈ s) ∧
      ∀ v ∈ t, own v = 0 → rank d < rank v → v ∉ s ∧ owed v = 0 := by
  have other : d ≠ root := by
    rintro rfl
    exact new unwound.top
  obtain ⟨few, p, inside, idle, follows, once⟩ := undoing.forward d member other zero
  have now := unwound.next d member new zero p inside idle follows
  have entered : p ∈ s := by
    by_contra absent
    rw [if_neg absent] at now
    omega
  rw [if_pos entered] at now
  have split := edges_sdiff (g := G.req) (x := d) unwound.within
  have asked := edges_pos.mpr ⟨p, entered, List.count_pos_iff.mp (by omega : 0 < (G.req p).count d)⟩
  refine ⟨now, by omega, fun w among quiet before => ?_, fun v among quiet after => ?_⟩
  · by_cases same : rank w = rank p
    · exact undoing.distinct w among p inside quiet idle same ▸ entered
    · exact unwound.early p entered idle w among quiet (by omega)
  · have absent (q : α) (amongst : q ∈ t) (quiet : own q = 0) (after : rank d ≤ rank q) : q ∉ s := fun entered => by
      rcases Nat.lt_or_eq_of_le after with later | same
      · exact new (unwound.early q entered quiet d member zero later)
      · exact new (undoing.distinct d member q amongst zero quiet same ▸ entered)
    have deeper : v ≠ root := by
      rintro rfl
      have first := undoing.rooted.2.2
      omega
    obtain ⟨-, q, amongst, hushed, follows, -⟩ := undoing.forward v among deeper quiet
    have unasked := unwound.next v among (absent v among quiet after.le) quiet q amongst hushed follows
    rw [if_neg (absent q amongst hushed (by omega))] at unasked
    exact ⟨absent v among quiet after.le, unasked⟩

/-- An interface is entered when its last edge is counted down, but for those from the interfaces that wait. -/
theorem Unwound.enter (unwound : Unwound G c₀ root t own rank path s (fun x => owed x + (d :: ds).count x) c)
    (undoing : Undoing G c₀ root t own rank) (member : d ∈ t) (new : d ∉ s)
    (last : own d = 1 → edges G.req (t \ s) d + (owed d + ds.count d) = 0) :
    Unwound G c₀ root t own rank (d :: path) (insert d s) (fun x => owed x + ds.count x + (G.req d).count x) (unref c d) := by
  have split (x : α) : (G.req d).count x + edges G.req (t \ insert d s) x = edges G.req (t \ s) x := by
    rw [Finset.sdiff_insert]
    exact edges_erase (Finset.mem_sdiff.mpr ⟨member, new⟩)
  have count (x : α) (other : x ≠ d) : (d :: ds).count x = ds.count x := List.count_cons_of_ne (Ne.symm other)
  have turn (zero : own d = 0) := unwound.turn undoing member new zero (by rw [List.count_cons_self]; omega)
  have outside {u : α} (absent : u ∉ insert d s) : u ≠ d ∧ u ∉ s := not_or.mp fun either => absent (Finset.mem_insert.mpr either)
  refine ⟨Finset.mem_insert_of_mem unwound.top, Finset.insert_subset member unwound.within, fun k counted => ?_,
    fun u inside absent => ?_, fun u inside absent single => ?_, fun u inside absent zero p among idle follows => ?_,
    fun u entered zero w among idle before => ?_, fun u entered deeper kind => ?_⟩
  · have other : k ≠ d := by
      rintro rfl
      have none := undoing.uncounted k member
      omega
    have before := unwound.kept k counted
    have edges := split k
    rw [unref_apply, if_neg other, before, count k other]
    omega
  · obtain ⟨other, absent⟩ := outside absent
    have before := unwound.counts u inside absent
    have edges := split u
    rw [count u other] at before
    rw [unref_apply, if_neg other, before]
    omega
  · obtain ⟨other, absent⟩ := outside absent
    have positive := unwound.waits u inside absent single
    have edges := split u
    rw [count u other] at positive
    omega
  · obtain ⟨other, absent⟩ := outside absent
    have before := unwound.next u inside absent zero p among idle follows
    rw [count u other] at before
    have below : u ≠ root := by
      rintro rfl
      exact absent unwound.top
    by_cases same : p = d
    · subst same
      obtain ⟨-, q, amongst, quiet, behind, once⟩ := undoing.forward u inside below zero
      obtain rfl := undoing.distinct q amongst p among quiet idle (by omega)
      rw [if_neg new] at before
      rw [if_pos (Finset.mem_insert_self _ s)]
      omega
    · have unasked : u ∉ G.req d := fun edge => by
        obtain ⟨quiet, order⟩ := undoing.backward u inside below zero d member edge
        rcases order with behind | ahead
        · exact same (undoing.distinct p among d member idle quiet (by omega))
        · refine absent ((turn quiet).2.2.1 u inside zero (Nat.lt_of_le_of_ne ahead fun equal => ?_))
          exact other (undoing.distinct u inside d member zero quiet equal)
      rw [List.count_eq_zero.mpr unasked]
      simp only [Finset.mem_insert, same, false_or]
      omega
  · rcases Finset.mem_insert.mp entered with rfl | entered
    · exact Finset.mem_insert_of_mem ((turn zero).2.2.1 w among idle before)
    · exact Finset.mem_insert_of_mem (unwound.early u entered zero w among idle before)
  · have edges := split u
    by_cases same : u = d
    · subst same
      have none := last (kind.resolve_right fun off => off List.mem_cons_self)
      omega
    · have inside := (Finset.mem_insert.mp entered).resolve_left same
      have none := unwound.shut u inside deeper (kind.imp_right fun off on => off (List.mem_cons_of_mem _ on))
      rw [count u same] at none
      omega

theorem Unwound.behind {path' : List α} {s' : Finset α} (undoing : Undoing G c₀ root t own rank) (member : d ∈ t) (zero : own d = 0)
    (none : ∀ v ∈ t, own v = 0 → rank d < rank v → owed v = 0) (after : Unwound G c₀ root t own rank path' s' owed c')
    (entered : d ∈ s') (other : d ≠ root) : edges G.req (t \ s') d = 0 := by
  have all (n : Nat) (v : α) (among : v ∈ t) (idle : own v = 0) (later : rank v = rank d + n) : v ∈ s' := by
    induction n generalizing v with
    | zero => exact undoing.distinct v among d member idle zero later ▸ entered
    | succ n ih =>
      by_contra absent
      have below : v ≠ root := by
        rintro rfl
        exact absent after.top
      obtain ⟨-, q, amongst, quiet, follows, -⟩ := undoing.forward v among below idle
      have due := after.next v among absent idle q amongst quiet follows
      rw [if_pos (ih q amongst quiet (by omega)), none v among idle (by omega)] at due
      cases due
  apply edges_eq_zero.mpr
  intro w left edge
  obtain ⟨among, absent⟩ := Finset.mem_sdiff.mp left
  obtain ⟨quiet, behind | ahead⟩ := undoing.backward d member other zero w among edge
  · exact absent (after.early d entered zero w among quiet (by omega))
  · exact absent (all (rank w - rank d) w among quiet (by omega))

/-- Everything that is to be taken down is entered once, and nothing that was counted before is. -/
theorem down_unwinds (undoing : Undoing G c₀ root t own rank) (h : Down G path task c ok c' ev) (success : ok = true)
    (top : root ∈ path) (inside : ∀ p ∈ path, p ∈ t → p ∈ s) (posed : Posed G c₀ root t own rank path s owed c task) :
    ∃ s', s ⊆ s' ∧ Unwound G c₀ root t own rank path s' owed c' ∧ ∀ j ∈ starts .preDown ev, c₀ j = 0 := by
  induction h generalizing s owed with
  | template | stopped | failed | broken => cases success
  | nil => exact ⟨s, Finset.Subset.refl s, by simpa [Posed] using posed, by simp⟩
  | @pending path i l c loop =>
    rcases posed with ⟨-, unwound⟩ | ⟨⟨member, new, -⟩, -⟩
    · exact ⟨s, Finset.Subset.refl s, unwound, by simp⟩
    · exact absurd (inside i loop member) new
  | @done path i c c' ev l fresh _ _ ih =>
    have entered (starting : c₀ i = 0) (rest : ∀ j ∈ starts .preDown ev, c₀ j = 0) :
        ∀ j ∈ starts .preDown (succeeded i l downPhases ++ ev), c₀ j = 0 := by
      rw [starts_append, starts_succeeded _ _ _ downPhases_nodup, if_pos (by decide), List.singleton_append]
      exact List.forall_mem_cons.mpr ⟨starting, rest⟩
    rcases posed with ⟨pending | harmless, unwound⟩ | ⟨⟨member, new, turn⟩, unwound⟩
    · exact absurd pending fresh
    · have apart := undoing.apart i harmless
      have inside' : ∀ p ∈ i :: path, p ∈ t → p ∈ s :=
        List.forall_mem_cons.mpr ⟨fun member => absurd member apart, inside⟩
      have expected : ∀ d ∈ G.req i, Expected G c₀ t root d := by
        intro d edge
        obtain ⟨zero, deeper⟩ := harmless.deps edge
        refine ⟨fun counted => by omega, Or.inr ?_⟩
        by_cases same : d = root
        · exact Or.inl (same ▸ undoing.rooted.1)
        · cases explicit : G.explicit d with
          | true => exact Or.inr (Or.inl rfl)
          | false => exact Or.inr (Or.inr (deeper same explicit))
      obtain ⟨s', subset, after, rest⟩ := ih success (List.mem_cons_of_mem i top) inside'
        ⟨expected, unwound.aside undoing harmless⟩
      exact ⟨s', subset, after.leave undoing harmless.2.1 (fun member => absurd member apart)
        (fun member => absurd (after.within member) apart), entered harmless.2.1 rest⟩
    · have other : i ≠ root := fun same => fresh (same ▸ top)
      have inside' : ∀ p ∈ i :: path, p ∈ t → p ∈ insert i s :=
        List.forall_mem_cons.mpr ⟨fun _ => Finset.mem_insert_self i s,
          fun p waits member => Finset.mem_insert_of_mem (inside p waits member)⟩
      obtain ⟨s', subset, after, rest⟩ := ih success (List.mem_cons_of_mem i top) inside'
        ⟨fun d edge => ⟨undoing.held i member d edge, undoing.deps i member d edge⟩, unwound⟩
      have zero := undoing.uncounted i member
      refine ⟨s', (Finset.subset_insert i s).trans subset, after.leave undoing zero (fun _ => subset (Finset.mem_insert_self i s)) ?_,
        entered zero rest⟩
      intro into idle
      obtain ⟨paid, none⟩ := turn idle
      rw [after.behind undoing member idle none into other, paid]
  | @held c d path ds ok c' ev needed _ ih =>
    obtain ⟨expected, unwound⟩ := posed
    refine ih success top inside ⟨fun e later => expected e (List.mem_cons_of_mem _ later), unwound.pay fun member new => ?_⟩
    have before := unwound.counts d member new
    have low := undoing.low d member
    rw [unref_self, before, List.count_cons_self] at needed
    by_cases single : own d = 1
    · exact ⟨single, by omega⟩
    · obtain ⟨once, few, -⟩ := unwound.turn undoing member new (by omega) (by rw [List.count_cons_self]; omega)
      rw [List.count_cons_self] at once
      omega
  | @kept c d path ds ok c' ev _ explicit _ ih =>
    obtain ⟨expected, unwound⟩ := posed
    refine ih success top inside ⟨fun e later => expected e (List.mem_cons_of_mem _ later), unwound.pay fun member new => ?_⟩
    have other : d ≠ root := by
      rintro rfl
      exact new unwound.top
    rw [undoing.implicit d member other] at explicit
    cases explicit
  | @released c d path c₁ ev₁ ds ok c' ev₂ unneeded implicit run _ ihRun ihRest =>
    obtain ⟨expected, unwound⟩ := posed
    have later : ∀ e ∈ ds, Expected G c₀ t root e := fun e later => expected e (List.mem_cons_of_mem _ later)
    have start : Posed G c₀ root t own rank path s (fun x => owed x + ds.count x) (unref c d) (.run d d) := by
      obtain ⟨held, known⟩ := expected d List.mem_cons_self
      rw [unref_self] at unneeded
      by_cases due : d ∈ t ∧ d ∉ s
      · -- all but its own count has been counted down
        obtain ⟨member, new⟩ := due
        have before := unwound.counts d member new
        rw [List.count_cons_self] at before
        refine Or.inr ⟨⟨member, new, fun zero => ?_⟩, unwound.enter undoing member new fun single => by omega⟩
        obtain ⟨once, -, -, behind⟩ := unwound.turn undoing member new zero (by rw [List.count_cons_self]; omega)
        rw [List.count_cons_self] at once
        have paid : owed d + ds.count d = 0 := by omega
        refine ⟨paid, fun v among idle after => ?_⟩
        obtain ⟨absent, none⟩ := behind v among idle after
        have other : v ≠ d := by
          rintro rfl
          exact Nat.lt_irrefl _ after
        rwa [List.count_cons_of_ne other.symm] at none
      · refine Or.inl ⟨?_, unwound.pay fun member new => absurd ⟨member, new⟩ due⟩
        rcases known with counted | member | explicit | harmless
        · rcases held counted with explicit | many
          · rw [implicit] at explicit
            cases explicit
          · have before := unwound.kept d counted
            rw [List.count_cons_self] at before
            omega
        · refine Or.inl ?_
          by_contra off
          have entered : d ∈ s := by
            by_contra new
            exact due ⟨member, new⟩
          have none := unwound.shut d entered (fun same => off (same ▸ top)) (Or.inr off)
          rw [List.count_cons_self] at none
          omega
        · rw [implicit] at explicit
          cases explicit
        · exact Or.inr harmless
    obtain ⟨s₁, subset₁, after₁, first⟩ := ihRun rfl top inside start
    obtain ⟨s₂, subset₂, after₂, second⟩ := ihRest success top (fun p waits member => subset₁ (inside p waits member))
      ⟨later, after₁⟩
    refine ⟨s₂, subset₁.trans subset₂, after₂, fun j member => ?_⟩
    rw [starts_append, List.mem_append] at member
    exact member.elim (first j) (second j)

/-- After the teardown of `root` from counts that cover all that is to be taken down, what was counted before
is counted as before. -/
theorem undoing_unharmed (undoing : Undoing G c₀ root t own rank) (kept : ∀ k, 0 < c₀ k → c k = c₀ k + edges G.req t k)
    (counts : ∀ u ∈ t, u ≠ root → c u = own u + edges G.req t u) (h : Down G [] (.run root l) c true c' ev) (counted : 0 < c₀ k) :
    k ∉ starts .preDown ev ∧ c' k = c₀ k := by
  obtain ⟨rooted, idle, first⟩ := undoing.rooted
  have zero := undoing.uncounted root rooted
  have split (x : α) : (G.req root).count x + edges G.req (t \ {root}) x = edges G.req t x := by
    rw [Finset.sdiff_singleton_eq_erase]
    exact edges_erase rooted
  have outside {u : α} (new : u ∉ ({root} : Finset α)) : u ≠ root := fun same => new (Finset.mem_singleton.mpr same)
  have start : Unwound G c₀ root t own rank [root] {root} (fun x => (fun _ => 0) x + (G.req root).count x) c := by
    refine ⟨Finset.mem_singleton_self root, Finset.singleton_subset_iff.mpr rooted, fun k counted => ?_,
      fun u member new => ?_, fun u member new single => ?_, fun u member new idle p among quiet follows => ?_,
      fun u entered _ w _ _ before => ?_, fun u entered other => absurd (Finset.mem_singleton.mp entered) other⟩
    · have edges := split k
      rw [kept k counted]
      dsimp only
      omega
    · have edges := split u
      rw [counts u member (outside new)]
      dsimp only
      omega
    · have edges := split u
      have asked := undoing.asked u member (outside new) single
      dsimp only
      omega
    · obtain ⟨-, q, amongst, hushed, behind, once⟩ := undoing.forward u member (outside new) idle
      obtain rfl := undoing.distinct q amongst p among hushed quiet (by omega)
      dsimp only
      by_cases same : q = root
      · rw [if_pos (Finset.mem_singleton.mpr same), ← same, once]
      · rw [if_neg fun inside => same (Finset.mem_singleton.mp inside), Nat.zero_add, List.count_eq_zero]
        intro edge
        obtain ⟨-, before | after⟩ := undoing.backward u member (outside new) idle root rooted edge
        · exact same (undoing.distinct q amongst root rooted quiet ‹own root = 0› (by omega))
        · omega
    · rw [Finset.mem_singleton.mp entered] at before
      omega
  cases h with
  | pending loop => cases loop
  | @done _ _ _ c' ev _ _ _ deps =>
    obtain ⟨s, -, after, rest⟩ := down_unwinds undoing deps rfl List.mem_cons_self
      (fun p waits _ => Finset.mem_singleton.mpr (List.mem_singleton.mp waits))
      ⟨fun d edge => ⟨undoing.held root rooted d edge, undoing.deps root rooted d edge⟩, start⟩
    have all : t \ s = ∅ := by
      apply undoing.acyclic _ Finset.sdiff_subset
      intro u member
      obtain ⟨inside, new⟩ := Finset.mem_sdiff.mp member
      have other : u ≠ root := fun same => new (same ▸ after.top)
      refine ⟨other, ?_⟩
      by_cases single : own u = 1
      · obtain ⟨w, left, edge⟩ := edges_pos.mp (after.waits u inside new single)
        exact ⟨w, left, edge, fun idle => by omega⟩
      · have low := undoing.low u inside
        obtain ⟨-, p, among, quiet, follows, once⟩ := undoing.forward u inside other (by omega)
        have due := after.next u inside new (by omega) p among quiet follows
        have absent : p ∉ s := by
          intro entered
          rw [if_pos entered] at due
          cases due
        exact ⟨p, Finset.mem_sdiff.mpr ⟨among, absent⟩, List.count_pos_iff.mp (by omega), fun _ => follows⟩
    have other : k ≠ root := by
      rintro rfl
      omega
    have final := after.kept k counted
    rw [all, edges_empty] at final
    rw [starts_append, starts_succeeded _ _ _ downPhases_nodup, if_pos (by decide), List.singleton_append, unref_apply,
      if_neg other]
    refine ⟨fun member => ?_, final⟩
    rcases List.mem_cons.mp member with same | deeper
    · exact other same
    · have none := rest k deeper
      omega

end Ifupdown
