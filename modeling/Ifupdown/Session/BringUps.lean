import Ifupdown.Session.Calls
import Ifupdown.Resolver.BringUpOrder

/-! The calls of one `ifup`, whatever its options and its arguments are. -/
namespace Ifupdown

variable {interfaces : Interfaces}

structure World.Idle (interfaces : Interfaces) (w : World) : Prop where
  pending : w.Pending []
  stanza : ∀ x, (w.collection.iface x).stanza = (interfaces.collection.iface x).stanza

theorem load_idle (sys : System) (interfaces : Interfaces) : (sys.load interfaces).Idle interfaces :=
  ⟨load_pending sys interfaces, load_stanza sys interfaces⟩

theorem markExplicit_idle {w : World} (idle : w.Idle interfaces) (ifname iface : Str) :
    (w.markExplicit ifname iface).Idle interfaces where
  pending x := by
    have pending := idle.pending x
    simp only [World.markExplicit, iface_setExplicit]
    split <;> exact pending
  stanza x := by
    rw [← idle.stanza x]
    simp only [World.markExplicit, iface_setExplicit]
    split <;> rfl

/-- A bring-up of `iface`, or nothing as far as counts and phases go. -/
def Rises (opts : LifExecuteOpts) (iface : Str) (w : World) (ok : Bool) (w' : World) : Prop :=
  w'.trace = w.trace ∧ w'.count = w.count ∨
    ∃ lifname ev, w'.trace = w.trace ++ ev ∧
      Up (w.collection.graph opts) [] (.run iface lifname) w.count ok w'.count ev

theorem skipInterface_false (h : skipInterface opts w iface ifname up updateState = (false, w')) : w' = w := by
  unfold skipInterface at h
  dsimp only at h
  repeat' split at h
  all_goals
    obtain ⟨skip, rfl⟩ := Prod.mk.inj h
    first
      | rfl
      | cases skip

theorem skipInterface_true (h : skipInterface opts w iface ifname up updateState = (true, w')) :
    w' = w ∨ w' = w.markExplicit ifname iface := by
  unfold skipInterface at h
  dsimp only at h
  repeat' split at h
  all_goals
    obtain ⟨-, rfl⟩ := Prod.mk.inj h
    first
      | exact Or.inl rfl
      | exact Or.inr rfl

theorem changeInterface_rises {w : World} (idle : w.Idle interfaces)
    (h : changeInterface env opts w iface lifname true updateState = (ok, w')) :
    Rises opts iface w ok w' ∧ w'.Idle interfaces := by
  unfold changeInterface at h
  split at h
  · cases h
    exact ⟨Or.inl ⟨rfl, rfl⟩, idle⟩
  rcases skipped : skipInterface opts w iface lifname true updateState with ⟨_ | _, w₀⟩
  · obtain rfl := skipInterface_false skipped
    rcases result : runToEnd env opts w₀ iface lifname true with ⟨done, w₁⟩
    have final := runToEnd_eq idle.pending env opts iface lifname true
    rw [result] at final
    obtain ⟨ev, run, evolves⟩ := lifLifecycleRun_up idle.pending final
    have after : w₁.Idle interfaces := by
      refine ⟨evolves.pending, fun x => ?_⟩
      rw [← idle.stanza x, LifInterface.stanza, evolves.config x]
      rfl
    rw [skipped] at h
    dsimp only at h
    rw [result] at h
    cases done with
    | false =>
      cases h
      exact ⟨Or.inr ⟨lifname, ev, evolves.trace, run⟩, after⟩
    | true =>
      dsimp only at h
      split at h
      · cases h
        refine ⟨Or.inr ⟨lifname, ev, evolves.trace, ?_⟩, markExplicit_idle after lifname iface⟩
        rw [count_markExplicit]
        exact run
      · cases h
        exact ⟨Or.inr ⟨lifname, ev, evolves.trace, run⟩, after⟩
  · rw [skipped] at h
    dsimp only at h
    cases h
    rcases skipInterface_true skipped with rfl | rfl
    · exact ⟨Or.inl ⟨rfl, rfl⟩, idle⟩
    · exact ⟨Or.inl ⟨rfl, count_markExplicit w lifname iface⟩, markExplicit_idle idle lifname iface⟩

end Ifupdown
