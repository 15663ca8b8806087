import Ifupdown.Resolver.Stops

/-! What a bring-up that has failed has counted, as a graph. -/
namespace Ifupdown

open Successors

/-- The lists as far as the bring-up has come: those of the waiting interfaces are cut off. -/
def DepGraph.upTo [DecidableEq α] (G : DepGraph α) (stack : List (α × List α)) : DepGraph α :=
  { G with req := fun i => (stack.lookup i).getD (G.req i) }

/-- An edge from an interface that was not counted before, other than the root. -/
def Through (G : DepGraph α) (c : α → Nat) (root i d : α) : Prop := i ≠ root ∧ c i = 0 ∧ d ∈ G.req i

variable {α : Type} [DecidableEq α] {G : DepGraph α} {path : List α} {c c' : α → Nat} {ev : List (Event α)}
  {d f i l w x : α} {stack : List (α × List α)}

section
variable {root : α} {s : Finset α} {r : α → α → Prop}
omit [DecidableEq α]

/-- The relation has the edges that the interfaces on the stack, and those in `s`, have counted, without those of the root. -/
structure Spans (G : DepGraph α) (c : α → Nat) (root : α) (s : Finset α) (stack : List (α × List α)) (r : α → α → Prop) : Prop where
  stack : ∀ entry ∈ stack, entry.1 ≠ root → ∀ e ∈ entry.2, c e = 0 → r entry.1 e
  ups : ∀ w ∈ s, ∀ d ∈ G.req w, c d = 0 → r w d

theorem Spans.rest (spans : Spans G c root s (entry :: stack) r) : Spans G c root s stack r :=
  ⟨fun entry member => spans.stack entry (List.mem_cons_of_mem _ member), spans.ups⟩

theorem Spans.walk (spans : Spans G c root s stack r) (up : BroughtUp G c path s d w) : Relation.ReflTransGen r d w :=
  Relation.ReflTransGen.mono (fun _ _ edge => spans.ups _ edge.2 _ edge.1.1.1 edge.1.1.2) _ _ up.2.2.2

theorem Halts.walk (halts : Halts G c f path i stack) (spans : Spans G c root s stack r) (below : i ≠ root)
    (top : i = root ∨ root ∈ path) {p : α} (waits : p ∈ stack.map Prod.fst) : Relation.ReflTransGen r i p := by
  induction halts with
  | here => rw [List.mem_singleton.mp waits]
  | @further i front d back path stack _ _ _ leads _ ih =>
    have onward := List.mem_cons_of_mem i (top.resolve_left below)
    have other : d ≠ root := by
      rintro rfl
      exact leads.2.1 onward
    rcases List.mem_cons.mp waits with rfl | deeper
    · exact .refl
    · exact .head (spans.stack _ List.mem_cons_self below d (by simp) leads.1) (ih spans.rest other (Or.inr onward) deeper)

theorem Halts.explored (halts : Halts G c f path i stack) (spans : Spans G c root s stack r) (below : i ≠ root)
    (top : i = root ∨ root ∈ path) (explored : Explored G c s w path stack) : Relation.TransGen r i w := by
  induction halts with
  | here =>
    obtain ⟨e, member, up⟩ | none := explored
    · exact .head' (spans.stack _ List.mem_cons_self below e member up.1) (spans.walk up)
    · exact none.elim
  | @further i front d back path stack _ _ _ leads _ ih =>
    have onward := List.mem_cons_of_mem i (top.resolve_left below)
    have other : d ≠ root := by
      rintro rfl
      exact leads.2.1 onward
    obtain ⟨e, member, up⟩ | deeper := explored
    · exact .head' (spans.stack _ List.mem_cons_self below e member up.1) (spans.walk up)
    · exact .head (spans.stack _ List.mem_cons_self below d (by simp) leads.1) (ih spans.rest other (Or.inr onward) deeper)

theorem Halts.reaches (halts : Halts G c f path root stack) (spans : Spans G c root s stack r)
    (top : ∀ entry ∈ stack, ∀ e ∈ entry.2, c e = 0 → r entry.1 e) :
    (∀ p ∈ stack.map Prod.fst, Relation.ReflTransGen r root p) ∧
      ∀ w, Explored G c s w path stack → Relation.ReflTransGen r root w := by
  cases halts with
  | here =>
    refine ⟨fun p waits => List.mem_singleton.mp waits ▸ .refl, ?_⟩
    rintro w (⟨e, member, up⟩ | none)
    · exact .head (top _ List.mem_cons_self e member up.1) (spans.walk up)
    · exact none.elim
  | @further _ front d back _ stack _ _ _ leads rest =>
    have other : d ≠ root := by
      rintro rfl
      exact leads.2.1 List.mem_cons_self
    have first : r root d := top _ List.mem_cons_self d (by simp) leads.1
    constructor
    · intro p waits
      rcases List.mem_cons.mp waits with rfl | deeper
      · exact .refl
      · exact .head first (rest.walk spans.rest other (Or.inr List.mem_cons_self) deeper)
    · rintro w (⟨e, member, up⟩ | later)
      · exact .head (top _ List.mem_cons_self e member up.1) (spans.walk up)
      · exact .head first (rest.explored spans.rest other (Or.inr List.mem_cons_self) later).to_reflTransGen

/-- What has been brought up requires nothing that is waiting, unless it was brought up below that. -/
theorem Halts.unasked (halts : Halts G c f path i stack) (spans : Spans G c root s stack r) (top : i = root ∨ root ∈ path)
    (apart : ∀ p ∈ stack.map Prod.fst, p ∉ s) (explored : Explored G c s w path stack) (up : w ∈ s) {q : α}
    (waits : q ∈ stack.map Prod.fst) (below : q ≠ root) (zero : c q = 0) (edge : q ∈ G.req w) : Relation.TransGen r q w := by
  induction halts with
  | @here path =>
    obtain rfl := List.mem_singleton.mp waits
    have self : Halts G c q path q _ := .here
    exact self.explored spans below top explored
  | @further i front d back path stack other listed first leads rest ih =>
    by_cases own : q = i
    · subst own
      have whole := Halts.further other listed first leads rest
      exact whole.explored spans below top explored
    have deeper : q ∈ stack.map Prod.fst := (List.mem_cons.mp waits).resolve_left own
    have onward : root ∈ i :: path := top.elim (fun same => same ▸ List.mem_cons_self) (List.mem_cons_of_mem i)
    rcases explored with ⟨e, member, here⟩ | later
    · -- then `e` leads on to what stops the bring-up, by `w` and `q`
      exfalso
      have off := (rest.fresh deeper).elim (fun same => same ▸ leads.2.1) fun fresh on => fresh.2 (List.mem_cons_of_mem _ on)
      have onward := (Relation.ReflTransGen.mono (fun _ _ edge => edge.1) _ _ here.2.2.2).trans
        (.head (⟨⟨edge, zero⟩, off⟩ : FreshEdge G c (i :: path) w q) (rest.onward deeper))
      have inside : e ∈ s := by
        rcases Relation.ReflTransGen.cases_head here.2.2.2 with rfl | ⟨_, edge, -⟩
        · exact up
        · exact edge.2
      rcases List.mem_append.mp member with early | last
      · exact first e early ⟨here.1, here.2.1, onward⟩
      · rw [List.mem_singleton.mp last] at inside
        exact apart d (List.mem_cons_of_mem _ rest.head) inside
    · exact ih spans.rest (Or.inr onward) (fun p waits => apart p (List.mem_cons_of_mem _ waits)) later deeper

end

section
variable {root : α} {s : Finset α} {r : α → α → Prop}

theorem Halts.single (halts : Halts G c f path i stack) (spans : Spans G c root s stack r) (top : i = root ∨ root ∈ path)
    {q : α} (waits : q ∈ stack.map Prod.fst) (below : q ≠ i) :
    (counted stack).count q = 1 ∨ Relation.TransGen r q q := by
  induction halts with
  | here => exact absurd (List.mem_singleton.mp waits) below
  | @further i front d back path stack other listed first leads rest ih =>
    have deeper : q ∈ stack.map Prod.fst := (List.mem_cons.mp waits).resolve_left below
    have onward : root ∈ i :: path := top.elim (fun same => same ▸ List.mem_cons_self) (List.mem_cons_of_mem i)
    have fresh : c q = 0 ∧ q ∉ i :: path := (rest.fresh deeper).elim (fun same => same ▸ ⟨leads.1, leads.2.1⟩)
      fun fresh => ⟨fresh.1, fun on => fresh.2 (List.mem_cons_of_mem _ on)⟩
    have early : front.count q = 0 := List.count_eq_zero.mpr (rest.unlisted leads first deeper)
    have split : (counted ((i, front ++ [d]) :: stack)).count q = front.count q + [d].count q + (counted stack).count q := by
      simp only [counted, List.flatMap_cons, List.count_append]
    rw [split, early]
    by_cases own : q = d
    · subst own
      have other : q ≠ root := by
        rintro rfl
        exact fresh.2 onward
      rw [List.count_singleton_self]
      by_cases again : q ∈ counted stack
      · obtain ⟨entry, member, edge⟩ := List.mem_flatMap.mp again
        have named : entry.1 ∈ stack.map Prod.fst := List.mem_map_of_mem member
        have apart : entry.1 ≠ root := by
          rcases rest.fresh named with same | ⟨-, off⟩
          · exact same ▸ other
          · rintro same
            exact off (List.mem_cons_of_mem _ (same ▸ onward))
        exact Or.inr (.tail' (rest.walk spans.rest other (Or.inr onward) named) (spans.rest.stack entry member apart q edge fresh.1))
      · rw [List.count_eq_zero.mpr again]
        exact Or.inl rfl
    · rw [List.count_singleton, if_neg (by simpa using Ne.symm own)]
      simpa using ih spans.rest (Or.inr onward) deeper own

/-- Each but the first has been counted, once, by the one above. -/
theorem Halts.forward (halts : Halts G c f path i stack) {q : α} (waits : q ∈ stack.map Prod.fst) (below : q ≠ i) :
    ∃ entry ∈ stack, (stack.map Prod.fst).idxOf entry.1 + 1 = (stack.map Prod.fst).idxOf q ∧ entry.2.count q = 1 := by
  have nodup := halts.nodup
  induction halts with
  | here => exact absurd (List.mem_singleton.mp waits) below
  | @further i front d back path stack _ _ first leads rest ih =>
    have deeper : q ∈ stack.map Prod.fst := (List.mem_cons.mp waits).resolve_left below
    obtain ⟨new, later⟩ := List.nodup_cons.mp nodup
    rw [List.map_cons, List.idxOf_cons_ne _ below.symm]
    by_cases own : q = d
    · subst own
      obtain ⟨others, names⟩ := rest.starts
      refine ⟨(i, front ++ [q]), List.mem_cons_self, ?_, ?_⟩
      · rw [names, List.idxOf_cons_self, List.idxOf_cons_self]
      · rw [List.count_append, List.count_eq_zero.mpr (rest.unlisted leads first deeper), List.count_singleton_self]
    · obtain ⟨entry, member, follows, once⟩ := ih deeper own later
      have named : entry.1 ∈ stack.map Prod.fst := List.mem_map_of_mem member
      have other : i ≠ entry.1 := fun same => new (same ▸ named)
      refine ⟨entry, List.mem_cons_of_mem _ member, ?_, once⟩
      rw [List.idxOf_cons_ne _ other]
      exact congrArg Nat.succ follows

/-- What else has been counted by one of them stands above it, or is the interface itself. -/
theorem Halts.backward (halts : Halts G c f path i stack) {q : α} (waits : q ∈ stack.map Prod.fst) (below : q ≠ i)
    {entry : α × List α} (member : entry ∈ stack) (edge : q ∈ entry.2) :
    (stack.map Prod.fst).idxOf entry.1 + 1 = (stack.map Prod.fst).idxOf q ∨
      (stack.map Prod.fst).idxOf q ≤ (stack.map Prod.fst).idxOf entry.1 := by
  have nodup := halts.nodup
  induction halts with
  | here => exact absurd (List.mem_singleton.mp waits) below
  | @further i front d back path stack _ _ first leads rest ih =>
    have deeper : q ∈ stack.map Prod.fst := (List.mem_cons.mp waits).resolve_left below
    obtain ⟨new, later⟩ := List.nodup_cons.mp nodup
    obtain ⟨others, names⟩ := rest.starts
    rw [List.map_cons, List.idxOf_cons_ne _ below.symm]
    rcases List.mem_cons.mp member with rfl | inside
    · have last : q = d := by
        rcases List.mem_append.mp edge with early | last
        · exact absurd early (rest.unlisted leads first deeper)
        · exact List.mem_singleton.mp last
      rw [List.idxOf_cons_self, names, last, List.idxOf_cons_self]
      exact Or.inl rfl
    · have named : entry.1 ∈ stack.map Prod.fst := List.mem_map_of_mem inside
      have other : i ≠ entry.1 := fun same => new (same ▸ named)
      rw [List.idxOf_cons_ne _ other]
      by_cases own : q = d
      · rw [own, names, List.idxOf_cons_self]
        exact Or.inr (Nat.succ_le_succ (Nat.zero_le _))
      · exact (ih deeper own inside later).imp (congrArg Nat.succ) Nat.succ_le_succ

end

theorem upTo_other (none : i ∉ stack.map Prod.fst) : (G.upTo stack).req i = G.req i := by
  have absent : stack.lookup i = .none := by
    rw [List.lookup_eq_none_iff]
    intro entry member
    rw [bne_iff_ne]
    rintro rfl
    exact none (List.mem_map_of_mem member)
  exact congrArg (Option.getD · (G.req i)) absent

theorem upTo_cut {cut : List α} (nodup : (stack.map Prod.fst).Nodup) (member : (i, cut) ∈ stack) :
    (G.upTo stack).req i = cut := by
  suffices found : stack.lookup i = some cut from congrArg (Option.getD · (G.req i)) found
  induction stack with
  | nil => cases member
  | cons entry stack ih =>
    obtain ⟨first, later⟩ := List.nodup_cons.mp nodup
    rcases List.mem_cons.mp member with rfl | deeper
    · rw [List.lookup_cons_self]
    · have other : i ≠ entry.1 := by
        rintro rfl
        exact first (List.mem_map.mpr ⟨_, deeper, rfl⟩)
      rw [List.lookup_cons, beq_false_of_ne other]
      exact ih later deeper

theorem upTo_sublist (parts : ∀ entry ∈ stack, entry.2.Sublist (G.req entry.1)) (i : α) :
    ((G.upTo stack).req i).Sublist (G.req i) := by
  by_cases waits : ∃ cut, stack.lookup i = some cut
  · obtain ⟨cut, found⟩ := waits
    obtain ⟨front, back, rfl, -⟩ := List.lookup_eq_some_iff.mp found
    have whole := parts (i, cut) (by simp)
    rwa [← show (G.upTo (front ++ (i, cut) :: back)).req i = cut from congrArg (Option.getD · (G.req i)) found] at whole
  · have absent : stack.lookup i = none := Option.eq_none_iff_forall_ne_some.mpr fun cut found => waits ⟨cut, found⟩
    rw [show (G.upTo stack).req i = G.req i from congrArg (Option.getD · (G.req i)) absent]

theorem upTo_edges {s : Finset α} (nodup : (stack.map Prod.fst).Nodup) (apart : ∀ p ∈ stack.map Prod.fst, p ∉ s) (x : α) :
    edges (G.upTo stack).req (s ∪ (stack.map Prod.fst).toFinset) x = edges G.req s x + (counted stack).count x := by
  have disjoint : Disjoint s (stack.map Prod.fst).toFinset :=
    Finset.disjoint_left.mpr fun p member waits => apart p (List.mem_toFinset.mp waits) member
  rw [edges_union disjoint]
  congr 1
  · exact Finset.sum_congr rfl fun w member => by rw [upTo_other fun waits => apart w waits member]
  · rw [edges, List.sum_toFinset _ nodup, List.map_map, counted, List.count_flatMap]
    congr 1
    apply List.map_congr_left
    intro entry member
    rw [Function.comp_apply, Function.comp_apply, upTo_cut nodup member]

/-- What a bring-up of `root` has entered, by the edges that it has counted: what it has brought up, and what
waits on the stack. -/
structure Halfway (P : DepGraph α) (c : α → Nat) (root : α) (stack : List (α × List α)) (entered up : Finset α) (c' : α → Nat) :
    Prop where
  parts : ∀ x, x ∈ entered ↔ x ∈ up ∨ x ∈ stack.map Prod.fst
  apart : ∀ p ∈ stack.map Prod.fst, p ∉ up
  starts : ∃ later, stack.map Prod.fst = root :: later
  reached : ∀ u, u ∈ entered ↔ Relation.ReflTransGen (FreeEdge P c) root u
  uncounted : ∀ u ∈ entered, u ≠ root → c u = 0
  counts : ∀ x, c' x = c x + (if x ∈ up then 1 else 0) + edges P.req entered x
  split : ∀ x, edges P.req entered x = edges P.req up x + (counted stack).count x
  single : ∀ x ∈ stack.map Prod.fst, x = root ∨ edges P.req entered x = 1 ∨ Relation.TransGen (Through P c root) x x
  forward : ∀ x ∈ stack.map Prod.fst, x ≠ root → ∃ p ∈ stack.map Prod.fst,
    (stack.map Prod.fst).idxOf p + 1 = (stack.map Prod.fst).idxOf x ∧ (P.req p).count x = 1
  backward : ∀ x ∈ stack.map Prod.fst, x ≠ root → ∀ w ∈ stack.map Prod.fst, x ∈ P.req w →
    (stack.map Prod.fst).idxOf w + 1 = (stack.map Prod.fst).idxOf x ∨ (stack.map Prod.fst).idxOf x ≤ (stack.map Prod.fst).idxOf w
  under : ∀ x ∈ stack.map Prod.fst, x ≠ root → ∀ w ∈ up, x ∈ P.req w → Relation.TransGen (Through P c root) x w

section
variable {P : DepGraph α} {root u : α} {entered up : Finset α}

theorem Halfway.rooted (progress : Halfway P c root stack entered up c') : root ∈ entered := (progress.reached root).mpr .refl

theorem Halfway.zero (progress : Halfway P c root stack entered up c') (rootless : c root = 0) (member : u ∈ entered) : c u = 0 := by
  by_cases same : u = root
  · exact same ▸ rootless
  · exact progress.uncounted u member same

theorem Halfway.next (progress : Halfway P c root stack entered up c') (member : u ∈ entered) (edge : d ∈ P.req u) (zero : c d = 0) :
    d ∈ entered :=
  (progress.reached d).mpr (((progress.reached u).mp member).tail ⟨edge, zero⟩)

theorem Halfway.within (progress : Halfway P c root stack entered up c') : up ⊆ entered := fun x member =>
  (progress.parts x).mpr (Or.inl member)

theorem Halfway.asked (progress : Halfway P c root stack entered up c') (member : u ∈ entered) (other : u ≠ root) :
    0 < edges P.req entered u := by
  rcases Relation.ReflTransGen.cases_tail ((progress.reached u).mp member) with same | ⟨b, walk, edge⟩
  · exact absurd same other
  · exact edges_pos.mpr ⟨b, (progress.reached b).mpr walk, edge.1⟩

end

section
variable {root : α}

theorem progress_start : Halfway (G.upTo [(root, [])]) c root [(root, [])] {root} ∅ c := by
  have none : (G.upTo [(root, [])]).req root = [] := upTo_cut (List.nodup_singleton root) List.mem_cons_self
  refine ⟨by simp, by simp, ⟨[], rfl⟩, fun u => ⟨fun same => ?_, fun walk => ?_⟩, by simp, fun x => ?_, fun x => ?_,
    by simp, by simp, by simp, by simp⟩
  · rw [Finset.mem_singleton.mp same]
  · induction walk with
    | refl => exact Finset.mem_singleton_self root
    | tail _ edge before =>
      rw [Finset.mem_singleton.mp before] at edge
      exact absurd (none ▸ edge.1) List.not_mem_nil
  · rw [edges_singleton, none]
    simp
  · rw [edges_singleton, none]
    simp [counted]

theorem up_progress (run : Up G [] (.run root l) c false c' ev) :
    ∃ f stack, (failures ev = [f] ∧ G.template f = false ∨ failures ev = [] ∧ G.template f = true) ∧
      Halts G c f [] root stack ∧
      Halfway (G.upTo stack) c root stack (ups ev ∪ (stack.map Prod.fst).toFinset) (ups ev) c' := by
  obtain ⟨f, stack, _, ⟨rfl, halts⟩, stopped⟩ := up_halts run rfl (underway_start c)
  refine ⟨f, stack, stopped.cause, halts, ?_⟩
  have nodup := halts.nodup
  have edges (x : α) := upTo_edges (G := G) nodup stopped.waiting x
  have waitingZero (p : α) (waits : p ∈ stack.map Prod.fst) (below : p ≠ root) : c p = 0 :=
    ((halts.fresh waits).resolve_left below).1
  have other (w : α) (up : w ∈ ups ev) : w ≠ root := by
    rintro rfl
    exact stopped.waiting w halts.head up
  have upZero (w : α) (up : w ∈ ups ev) : c w = 0 :=
    ((up_ups_fresh run up).2.resolve_left fun same => other w up (Option.some.inj same).symm).1
  have whole (w : α) (up : w ∈ ups ev) : (G.upTo stack).req w = G.req w :=
    upTo_other fun waits => stopped.waiting w waits up
  have counts (x : α) : c' x = c x + (if x ∈ ups ev then 1 else 0) +
      Successors.edges (G.upTo stack).req (ups ev ∪ (stack.map Prod.fst).toFinset) x := by
    rw [stopped.counts x, edges x]
    simp only [List.nil_append]
    omega
  have explored (w : α) (up : w ∈ ups ev) : Explored G c (ups ev) w [] stack :=
    (stopped.explored w up).resolve_left (by simp)
  have through : Spans G c root (ups ev) stack (Through (G.upTo stack) c root) := by
    constructor
    · intro entry member below e listed _
      exact ⟨below, waitingZero _ (List.mem_map_of_mem member) below, by rwa [upTo_cut nodup member]⟩
    · intro w up d edge _
      exact ⟨other w up, upZero w up, by rwa [whole w up]⟩
  have free : Spans G c root (ups ev) stack (FreeEdge (G.upTo stack) c) := by
    constructor
    · intro entry member _ e listed zero
      exact ⟨by rwa [upTo_cut nodup member], zero⟩
    · intro w up d edge zero
      exact ⟨by rwa [whole w up], zero⟩
  have under (x : α) (waits : x ∈ stack.map Prod.fst) (below : x ≠ root) (w : α) (up : w ∈ ups ev) (edge : x ∈ G.req w) :=
    halts.unasked through (Or.inl rfl) stopped.waiting (explored w up) up waits below (waitingZero x waits below) edge
  obtain ⟨toWaiting, toUp⟩ := halts.reaches free fun entry member e listed zero =>
    ⟨by rwa [upTo_cut nodup member], zero⟩
  refine ⟨fun x => by rw [Finset.mem_union, List.mem_toFinset], stopped.waiting, halts.starts,
    fun u => ⟨fun entered => ?_, fun walk => ?_⟩, fun u entered below => ?_, counts, fun x => ?_,
    fun x waits => ?_, fun x waits below => ?_, fun x waits below w waiting edge => ?_, fun x waits below w up edge => ?_⟩
  · rcases Finset.mem_union.mp entered with up | waits
    · exact toUp u (explored u up)
    · exact toWaiting u (List.mem_toFinset.mp waits)
  · induction walk with
    | refl => exact Finset.mem_union_right _ (List.mem_toFinset.mpr halts.head)
    | @tail b d _ edge before =>
      have asked := edges_pos.mpr ⟨b, before, edge.1⟩
      have positive : 0 < c' d := by
        rw [counts d]
        omega
      rw [Finset.mem_union, List.mem_toFinset]
      rcases stopped.known d positive with first | up | waits | none
      · exact absurd edge.2 first.ne'
      · exact Or.inl up
      · exact Or.inr waits
      · cases none
  · rcases Finset.mem_union.mp entered with up | waits
    · exact upZero u up
    · exact waitingZero u (List.mem_toFinset.mp waits) below
  · rw [edges x]
    congr 1
    exact Finset.sum_congr rfl fun w up => by rw [whole w up]
  · by_cases same : x = root
    · exact Or.inl same
    refine Or.inr ?_
    rw [edges x]
    by_cases asked : ∃ w ∈ ups ev, x ∈ G.req w
    · obtain ⟨w, up, edge⟩ := asked
      exact Or.inr (.tail (under x waits same w up edge) (through.ups w up x edge (waitingZero x waits same)))
    · have none : Successors.edges G.req (ups ev) x = 0 := edges_eq_zero.mpr fun w up edge => asked ⟨w, up, edge⟩
      rw [none, Nat.zero_add]
      exact halts.single through (Or.inl rfl) waits same
  · obtain ⟨⟨p, cut⟩, member, follows, once⟩ := halts.forward waits below
    exact ⟨p, List.mem_map_of_mem member, follows, by rwa [upTo_cut nodup member]⟩
  · obtain ⟨⟨_, cut⟩, member, rfl⟩ := List.mem_map.mp waiting
    rw [upTo_cut nodup member] at edge
    exact halts.backward waits below member edge
  · rw [whole w up] at edge
    exact under x waits below w up edge

end

end Ifupdown
