import Ifupdown.Resolver.BringUpOrder
import Ifupdown.Resolver.ExactCounts

/-! A teardown after a bring-up of the same interface, when nothing requires itself. -/
namespace Ifupdown

open Successors

variable {α : Type} [DecidableEq α] {G H : DepGraph α} {conf : Finset α} {c c₁ c₂ : α → Nat}
  {ev₁ ev₂ : List (Event α)}

theorem up_below (h : Up G [] (.run root l) c ok c' ev) {j : α} (up : j ∈ ups ev) :
    j = root ∨ Relation.TransGen (Edge G.req) root j := by
  obtain ⟨n, named, walk⟩ := up_reached h (up_started h (Or.inl up))
  obtain rfl := List.mem_singleton.mp named
  exact Relation.reflTransGen_iff_eq_or_transGen.mp walk

theorem down_below (h : Down G [] (.run root l) c ok c' ev) {j : α} (down : j ∈ downs ev) :
    j = root ∨ Relation.TransGen (Edge G.req) root j := by
  apply Relation.reflTransGen_iff_eq_or_transGen.mp
  apply down_within h (s := {j | Relation.ReflTransGen (Edge G.req) root j}) _ _ (by simp [Task.rest])
    .preDown (down_started h (Or.inl down))
  · intro i walk d edge
    exact walk.tail edge
  · rintro i ⟨⟩
    exact .refl

theorem up_parent (h : Up G [] (.run root l) c true c' ev) {j : α} (up : j ∈ ups ev) (other : j ≠ root) :
    ∃ i ∈ ups ev, j ∈ G.req i := by
  rcases up_dependent h (up_started h (Or.inl up)) with same | none | ⟨i, edge, entered⟩
  · exact absurd (Option.some.inj same).symm other
  · cases none
  · refine ⟨i, ?_, edge⟩
    rcases entered with same | ⟨zero, counted⟩
    · have up := (up_run_true h).resolve_left List.not_mem_nil
      exact Option.some.inj same ▸ up
    · rcases up_counted h rfl counted with before | up | waits
      · omega
      · exact up
      · cases waits

/-- Every interface that came up goes down again and no other does, if nothing else that
`root` requires can go: it is explicit or a configured interface requires it. -/
theorem down_undoes_up (same : H.req = G.req) (acyclic : Acyclic G.req)
    (exact : Exact G.req (fun _ => True) conf c) (closed : Closed G.req conf) (uncounted : c root = 0)
    (up : Up G [] (.run root l) c true c₁ ev₁) (down : Down H [] (.run root l') c₁ true c₂ ev₂)
    (implicit : ∀ j, Relation.TransGen (Edge G.req) root j → j ∉ conf → H.explicit j = false)
    (settled : ∀ j ∈ conf, Relation.TransGen (Edge G.req) root j →
      H.explicit j = true ∨ ∃ k ∈ conf, j ∈ G.req k) :
    downs ev₂ = ups ev₁ ∧ c₂ = c := by
  have used : ∀ i, ∀ d ∈ G.req i, True := fun _ _ _ => trivial
  have apart := up_fresh up exact used trivial uncounted
  have exact₁ := up_exact up exact used trivial uncounted
  have closed₁ := up_closed up exact closed used
  have rootUp := (up_run_true up).resolve_left List.not_mem_nil
  have rootDown := (down_run_true down).resolve_left List.not_mem_nil
  have rootNew : root ∉ conf := fun old => Finset.disjoint_left.mp apart old rootUp
  rw [← same] at exact₁ closed₁
  obtain ⟨subset, -, after⟩ := down_exact down exact₁ closed₁ (fun _ _ _ => trivial)
    (Finset.mem_union_right _ rootUp)
  obtain ⟨exact₂, closed₂⟩ := after rfl
  rw [same] at exact₂ closed₂
  have noneOld : downs ev₂ ∩ conf = ∅ := by
    -- a configured dependent of an interface that goes down goes down, too
    apply acyclic_empty acyclic
    intro j member
    obtain ⟨gone, old⟩ := Finset.mem_inter.mp member
    have other : j ≠ root := fun here => rootNew (here ▸ old)
    have below := (down_below down gone).resolve_left other
    rw [same] at below
    have free : H.explicit j = false := by
      have implicit := (down_implicit down .preDown (down_started down (Or.inl gone))).2
      exact implicit.resolve_left fun root => other (Option.some.inj root).symm
    rcases settled j old below with explicit | ⟨k, configured, edge⟩
    · rw [free] at explicit
      cases explicit
    · refine ⟨k, Finset.mem_inter.mpr ⟨?_, configured⟩, edge⟩
      by_contra stays
      have left : k ∈ (conf ∪ ups ev₁) \ downs ev₂ :=
        Finset.mem_sdiff.mpr ⟨Finset.mem_union_left _ configured, stays⟩
      rcases closed₂ k left j edge with here | up
      · exact other here
      · exact (Finset.mem_sdiff.mp up).2 gone
  have noneLeft : ups ev₁ \ downs ev₂ = ∅ := by
    -- what stays up is needed by something that came up and stays up
    apply acyclic_empty acyclic
    intro j member
    obtain ⟨new, stays⟩ := Finset.mem_sdiff.mp member
    have other : j ≠ root := fun here => stays (here ▸ rootDown)
    have fresh : j ∉ conf := fun old => Finset.disjoint_left.mp apart old new
    have free := implicit j ((up_below up new).resolve_left other) fresh
    obtain ⟨i, parent, edge⟩ := up_parent up new other
    by_cases gone : i ∈ downs ev₂
    · rcases down_left down rfl stays List.not_mem_nil free with ⟨-, -, released⟩ | needed
      · exact absurd edge (same ▸ released i gone)
      · have count := exact₂ j trivial
        rw [if_pos (Finset.mem_sdiff.mpr ⟨Finset.mem_union_right _ new, stays⟩)] at count
        obtain ⟨k, left, edge⟩ := edges_pos.mp
          (show 0 < edges G.req ((conf ∪ ups ev₁) \ downs ev₂) j by omega)
        obtain ⟨member, stays⟩ := Finset.mem_sdiff.mp left
        refine ⟨k, Finset.mem_sdiff.mpr ⟨?_, stays⟩, edge⟩
        rcases Finset.mem_union.mp member with old | new
        · exact absurd (closed k old j edge) fresh
        · exact new
    · exact ⟨i, Finset.mem_sdiff.mpr ⟨parent, gone⟩, edge⟩
  have equal : downs ev₂ = ups ev₁ := by
    apply Finset.Subset.antisymm
    · intro j gone
      rcases Finset.mem_union.mp (subset gone) with old | new
      · have both := Finset.mem_inter.mpr ⟨gone, old⟩
        rw [noneOld] at both
        exact absurd both (Finset.notMem_empty j)
      · exact new
    · exact Finset.sdiff_eq_empty_iff_subset.mp noneLeft
  refine ⟨equal, funext fun x => ?_⟩
  rw [equal, Finset.union_sdiff_cancel_right apart] at exact₂
  exact (exact₂ x trivial).trans (exact x trivial).symm

end Ifupdown
