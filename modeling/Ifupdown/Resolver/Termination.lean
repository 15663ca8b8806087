import Ifupdown.Resolver.Simulation
import Mathlib.Data.Finset.Card

/-! The recursion of `lif_lifecycle_run` ends: an interface on the path is not entered again,
and all interfaces come from the collection and its `requires` lists. -/
namespace Ifupdown

def World.Within (w : World) (names : Finset Str) : Prop :=
  ∀ i, ∀ d ∈ requireIfs (w.collection.iface i), d ∈ names

theorem Evolves.within (h : Evolves own path w w' ev) (within : World.Within w names) :
    w'.Within names := by
  intro i d member
  refine within i d ?_
  rwa [show requireIfs (w.collection.iface i) = requireIfs (w'.collection.iface i) from
    show requireIfs (w.collection.iface i).config = _ by rw [← h.config i]; rfl]

theorem dependentsLoop_total (opts : LifExecuteOpts) (up : Bool) {run : World → Str → Option (Bool × World)} {names : Finset Str}
    (runs : ∀ w token, w.Pending path → w.Within names → token ∈ names →
      ∃ ok w', run w token = some (ok, w') ∧ w'.Pending path ∧ w'.Within names)
    {tokens : List Str} (known : ∀ token ∈ tokens, token ∈ names) {w : World}
    (pending : w.Pending path) (within : w.Within names) :
    (dependentsLoop run opts up tokens w).isSome := by
  induction tokens generalizing w with
  | nil => rfl
  | cons token rest ih =>
    obtain ⟨head, tail⟩ := List.forall_mem_cons.mp known
    obtain ⟨w₀, w₁, ⟨-, create⟩, ⟨-, step⟩, turn⟩ := dependentsLoop_step opts pending token up
    rw [turn]
    split
    · exact ih tail create.pending (create.within within)
    split
    · exact ih tail step.pending (step.within within)
    obtain ⟨ok, w₂, result, pending₂, within₂⟩ := runs w₁ token step.pending (step.within within) head
    rw [result]
    cases ok with
    | true => exact ih tail pending₂ within₂
    | false => rfl

theorem handleDependents_total (opts : LifExecuteOpts) (up : Bool) {run : World → Str → Option (Bool × World)}
    {names : Finset Str} {parent : Str}
    (runs : ∀ w token, w.Pending (parent :: path) → w.Within names → token ∈ names →
      ∃ ok w', run w token = some (ok, w') ∧ w'.Pending (parent :: path) ∧ w'.Within names)
    {w : World} (pending : w.Pending path) (within : w.Within names) :
    (handleDependents run opts parent w up).isSome := by
  unfold handleDependents
  split
  · rfl
  have enter := evolves_enter True pending parent
  have loop := dependentsLoop_total opts up runs (within parent) enter.pending
    (enter.within within)
  obtain ⟨⟨ok, w'⟩, result⟩ := Option.isSome_iff_exists.mp loop
  rw [result]
  rfl

theorem lifLifecycleRun_follows {w w' : World} (pending : w.Pending path)
    (h : lifLifecycleRun env opts fuel w iface lifname up = some (ok, w')) :
    ∃ ev, Evolves (lifname = iface) path w w' ev := by
  cases up with
  | true =>
    obtain ⟨ev, -, evolves⟩ := lifLifecycleRun_up pending h
    exact ⟨ev, evolves⟩
  | false =>
    obtain ⟨ev, -, evolves⟩ := lifLifecycleRun_down pending h
    exact ⟨ev, evolves⟩

/-- Fuel for the names that are not pending yet is enough. -/
theorem lifLifecycleRun_total (names : Finset Str) {w : World} (pending : w.Pending path)
    (within : w.Within names) (known : iface ∈ names)
    (fuelled : (names \ path.toFinset).card < fuel) :
    (lifLifecycleRun env opts fuel w iface lifname up).isSome := by
  induction fuel generalizing w path iface lifname with
  | zero => omega
  | succ fuel ih =>
    unfold lifLifecycleRun
    rw [pending iface]
    by_cases loop : iface ∈ path
    · simp [loop]
    have smaller : (names \ (iface :: path).toFinset).card < fuel := by
      have inside : iface ∈ names \ path.toFinset := by simp [known, loop]
      have erased : names \ (iface :: path).toFinset = (names \ path.toFinset).erase iface := by
        ext x
        simp only [Finset.mem_sdiff, List.toFinset_cons, Finset.mem_insert, Finset.mem_erase]
        tauto
      have positive := Finset.card_pos.mpr ⟨iface, inside⟩
      rw [erased, Finset.card_erase_of_mem inside]
      omega
    have runs (w : World) (token : Str) (pending : w.Pending (iface :: path)) (within : w.Within names)
        (known : token ∈ names) :
        (lifLifecycleRun env opts fuel w token (w.collection.iface token).ifname up).isSome :=
      ih pending within known smaller
    have dependents {w : World} (pending : w.Pending path) (within : w.Within names) :=
      handleDependents_total opts up
        (fun w token pending within known => by
          obtain ⟨⟨ok, w'⟩, result⟩ := Option.isSome_iff_exists.mp (runs w token pending within known)
          obtain ⟨ev, evolves⟩ := lifLifecycleRun_follows pending result
          exact ⟨ok, w', result, evolves.pending, evolves.within within⟩) pending within
    simp only [loop, decide_false, Bool.false_eq_true, if_false]
    split
    · rfl
    cases up with
    | true =>
      obtain ⟨⟨ok, w₁⟩, result⟩ := Option.isSome_iff_exists.mp (dependents pending within)
      simp only [if_true, result]
      cases ok with
      | false => rfl
      | true =>
        dsimp only
        rcases runPhases env opts iface lifname true upPhases w₁ with ⟨_ | _, w₂⟩ <;> rfl
    | false =>
      simp only [Bool.false_eq_true, if_false]
      rcases phases : runPhases env opts iface lifname false downPhases w with ⟨_ | _, w₁⟩
      · rfl
      obtain ⟨ev, -, step, -⟩ := evolves_runPhases True pending phases
      obtain ⟨⟨ok, w₂⟩, result⟩ := Option.isSome_iff_exists.mp
        (dependents step.pending (step.within within))
      simp only [result]
      cases ok <;> rfl

theorem dependentsLoop_mono {run run' : World → Str → Option (Bool × World)}
    (more : ∀ w token r, run w token = some r → run' w token = some r) {tokens : List Str} {w : World}
    (h : dependentsLoop run opts up tokens w = some r) : dependentsLoop run' opts up tokens w = some r := by
  induction tokens generalizing w with
  | nil => exact h
  | cons token rest ih =>
    unfold dependentsLoop at h ⊢
    dsimp only at h ⊢
    split
    · rename_i broken
      rw [if_pos broken] at h
      exact ih h
    rename_i usable
    rw [if_neg usable] at h
    generalize handleRefcounting _ token up = counted at h ⊢
    obtain ⟨_ | _, w₁⟩ := counted
    case isFalse.true => exact ih h
    dsimp only at h ⊢
    split
    · rename_i kept
      rw [if_pos kept] at h
      exact ih h
    rename_i changed
    rw [if_neg changed] at h
    rcases result : run w₁ token with _ | ⟨_ | _, w₂⟩ <;> rw [result] at h
    · cases h
    · rw [more _ _ _ result]
      exact h
    · rw [more _ _ _ result]
      exact ih h

theorem handleDependents_mono {run run' : World → Str → Option (Bool × World)}
    (more : ∀ w token r, run w token = some r → run' w token = some r) {w : World}
    (h : handleDependents run opts parent w up = some r) :
    handleDependents run' opts parent w up = some r := by
  unfold handleDependents at h ⊢
  split
  · rename_i absent
    rwa [if_pos absent] at h
  · rename_i present
    rw [if_neg present] at h
    split at h
    · cases h
    · rename_i ok w₁ result
      rw [dependentsLoop_mono more result]
      exact h

theorem lifLifecycleRun_mono {w : World} (more : fuel ≤ fuel')
    (h : lifLifecycleRun env opts fuel w iface lifname up = some r) :
    lifLifecycleRun env opts fuel' w iface lifname up = some r := by
  induction fuel generalizing fuel' w iface lifname r with
  | zero => cases h
  | succ fuel ih =>
    cases fuel' with
    | zero => omega
    | succ fuel' =>
      have dependents {w : World} {r} (h : handleDependents
          (fun w iface => lifLifecycleRun env opts fuel w iface (w.collection.iface iface).ifname up)
          opts iface w up = some r) : handleDependents
          (fun w iface => lifLifecycleRun env opts fuel' w iface (w.collection.iface iface).ifname up)
          opts iface w up = some r :=
        handleDependents_mono (fun _ _ _ result => ih (by omega) result) h
      unfold lifLifecycleRun at h ⊢
      dsimp only at h ⊢
      split
      · rename_i loop
        rwa [if_pos loop] at h
      rename_i fresh
      rw [if_neg fresh] at h
      split
      · rename_i template
        rwa [if_pos template] at h
      rename_i ordinary
      rw [if_neg ordinary] at h
      cases up with
      | true =>
        simp only [if_true] at h ⊢
        rcases result : handleDependents (fun w iface => lifLifecycleRun env opts fuel w iface
          (w.collection.iface iface).ifname true) opts iface w true with _ | ⟨ok, w₁⟩ <;> rw [result] at h
        · cases h
        · rw [dependents result]
          exact h
      | false =>
        simp only [Bool.false_eq_true, if_false] at h ⊢
        generalize runPhases env opts iface lifname false downPhases w = outcome at h ⊢
        obtain ⟨_ | _, w₁⟩ := outcome
        · exact h
        dsimp only at h ⊢
        rcases result : handleDependents (fun w iface => lifLifecycleRun env opts fuel w iface
          (w.collection.iface iface).ifname false) opts iface w₁ false with _ | ⟨ok, w₂⟩ <;> rw [result] at h
        · cases h
        · rw [dependents result]
          exact h

theorem requireIfs_init (ifname : Str) : requireIfs (lifInterfaceInit ifname) = [] := by
  have absent : lifDictFind (lifInterfaceInit ifname).vars (str "requires") = none := by
    unfold lifInterfaceInit
    split <;> rfl
  rw [requireIfs, absent]

def Collection.names (collection : Collection) : Finset Str :=
  (collection.entries.flatMap fun entry => entry.1 :: requireIfs entry.2).toFinset

theorem collection_within (w : World) : w.Within w.collection.names := by
  intro i d member
  rw [Collection.names, List.mem_toFinset, List.mem_flatMap]
  unfold Collection.iface at member
  cases found : lifDictFind w.collection.entries i with
  | none =>
    rw [found, Option.getD_none, requireIfs_init] at member
    cases member
  | some interface =>
    rw [found] at member
    exact ⟨_, lifDictFind_mem found, List.mem_cons_of_mem _ member⟩

theorem lifecycleFuel_enough {w : World} (pending : w.Pending []) (env : Env) (opts : LifExecuteOpts)
    (iface lifname : Str) (up : Bool) :
    (lifLifecycleRun env opts (lifecycleFuel w.collection) w iface lifname up).isSome := by
  refine lifLifecycleRun_total (insert iface w.collection.names) pending
    (fun i d member => Finset.mem_insert_of_mem (collection_within w i d member))
    (Finset.mem_insert_self _ _) ?_
  have named : w.collection.names.card ≤ _ := List.toFinset_card_le _
  have inserted := Finset.card_insert_le iface w.collection.names
  rw [List.toFinset_nil, Finset.sdiff_empty]
  unfold lifecycleFuel
  omega

theorem runToEnd_eq {w : World} (pending : w.Pending []) (env : Env) (opts : LifExecuteOpts)
    (iface lifname : Str) (up : Bool) :
    lifLifecycleRun env opts (lifecycleFuel w.collection) w iface lifname up =
      some (runToEnd env opts w iface lifname up) := by
  obtain ⟨r, result⟩ := Option.isSome_iff_exists.mp (lifecycleFuel_enough pending env opts iface lifname up)
  rw [runToEnd, result]
  rfl

end Ifupdown
