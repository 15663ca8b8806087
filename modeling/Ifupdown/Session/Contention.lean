import Ifupdown.Session.Turns

/-! What one `ifup` does for an interface that others bring up, too. -/
namespace Ifupdown

variable {interfaces : Interfaces} {env : Env} {opts : LifExecuteOpts} {iface target : Str} {file : StateDict}

theorem readState_ready (sound : file.Sound) : (readState interfaces file).Ready interfaces := by
  have ready : ({ saved := file } : System).saved.Sound := sound
  exact load_ready ready interfaces

def StateDict.refcount (file : StateDict) (x : Str) : Nat := recorded (lifDictFind file.records x)

theorem readState_count (sound : file.Sound) : (readState interfaces file).count = file.refcount := by
  have counted : ({ saved := file } : System).saved.Sound := sound
  exact load_count counted interfaces

theorem state_refcount {w : World} (ready : w.Ready interfaces) : w.state.refcount = w.count := save_refcount ready

theorem sync_known (records : LifDict LifStateRecord) (collection : Collection)
    (known : (lifDictFind collection.entries x).isSome = true) :
    (lifDictFind (records.foldl (fun collection entry => syncRecord collection entry.2) collection).entries x).isSome =
      true := by
  induction records generalizing collection with
  | nil => exact known
  | cons entry rest ih =>
    refine ih (syncRecord collection entry.2) ?_
    have listed : x ∈ lifDictKeys collection.entries := by
      by_contra absent
      rw [lifDictFind_none.mpr absent] at known
      cases known
    rw [Option.isSome_iff_ne_none, Ne, lifDictFind_none, not_not]
    simp only [syncRecord, Collection.write, lifDictKeys_write, collectionFind_keys]
    exact List.mem_append_left _ listed

theorem resolve_known (name : Name iface) (sound : file.Sound)
    (known : (lifDictFind interfaces.collection.entries iface).isSome = true) :
    resolveArgument (readState interfaces file) iface = some iface := by
  cases resolved : resolveArgument (readState interfaces file) iface with
  | some other => rw [resolve_self name (readState_ready sound) resolved]
  | none =>
    unfold resolveArgument at resolved
    have found := sync_known file.records interfaces.collection known
    rw [name.split] at resolved
    dsimp only at resolved
    rw [show (lifDictFind (readState interfaces file).collection.entries iface).isSome = true from found] at resolved
    split at resolved <;> cases resolved

theorem changeInterface_up_counted {w : World} (plain : opts.force = false) (locked : acquireStateLock env opts iface = true)
    (ordinary : (w.collection.iface iface).isTemplate = false)
    (usable : (w.collection.iface iface).hasConfigError = false) (counted : 0 < w.count iface) :
    changeInterface env opts w iface iface true true = (true, w.markExplicit iface iface) := by
  have positive : 0 < (w.collection.iface iface).refcount := counted
  unfold changeInterface skipInterface
  simp only [locked, Bool.not_true, Bool.false_eq_true, if_false, ordinary, usable, plain, positive, decide_true,
    Bool.and_true, if_true]

/-- An undisturbed `ifup` starts each phase of the interface, or of one that it requires, once if
that is down, and never if it is up. -/
theorem ifup_once {w w' : World} (ready : w.Ready interfaces) (name : Name iface) (plain : opts.force = false)
    (sane : interfaces.Sane) (locked : acquireStateLock env opts iface = true) (fresh : w.trace = [])
    (wanted : target = iface ∨ target ∈ interfaces.requires iface) (uncounted : w.count target = 0 → w.count iface = 0)
    (h : changeInterface env opts w iface iface true true = (rc, w')) (quiet : failures w'.trace = []) :
    w'.Ready interfaces ∧ 0 < w'.count target ∧
      ∀ phase ∈ upPhases, (starts phase w'.trace).count target = if w.count target = 0 then 1 else 0 := by
  have ordinary := (stanza_isTemplate ready.stanza iface).trans (sane iface).1
  have usable := (stanza_hasConfigError ready.stanza iface).trans (sane iface).2
  by_cases counted : 0 < w.count iface
  · rw [changeInterface_up_counted plain locked ordinary usable counted] at h
    cases h
    have positive : 0 < w.count target := by
      by_contra zero
      have down := uncounted (Nat.eq_zero_of_not_pos zero)
      omega
    rw [count_markExplicit, show (w.markExplicit iface iface).trace = w.trace from rfl, fresh]
    refine ⟨markExplicit_ready ready counted, positive, fun phase _ => ?_⟩
    rw [if_neg positive.ne', starts_nil, List.count_nil]
  have down : w.count iface = 0 := Nat.eq_zero_of_not_pos counted
  rw [changeInterface_up_runs plain locked ordinary usable down] at h
  rcases result : runToEnd env opts w iface iface true with ⟨ok, w₁⟩
  have follows := runToEnd_up ready.pending result
  have after := follows_up_ready ready name.short follows
  have own : ok = true → 0 < w₁.count iface := by
    rintro rfl
    exact follows_up_counted follows
  obtain ⟨ev, run, evolves⟩ := follows
  have trace : w'.trace = ev := by
    rw [result] at h
    rw [← List.nil_append ev, ← fresh, ← evolves.trace]
    cases ok <;> cases h <;> rfl
  rw [trace] at quiet ⊢
  obtain rfl : ok = true :=
    up_successful (fun x => (stanza_isTemplate ready.stanza x).trans (sane x).1) run quiet
  rw [result] at h
  cases h
  have reached : 0 < w₁.count target := by
    rcases wanted with rfl | edge
    · exact own rfl
    · rw [← stanza_requires plain ready.stanza] at edge
      exact up_dependency_counted run ((up_run_true run).resolve_left List.not_mem_nil) edge
  rw [if_pos rfl, count_markExplicit]
  refine ⟨markExplicit_ready after (own rfl), reached, fun phase among => ?_⟩
  obtain ⟨once, entered⟩ := up_starts_once run phase
  split
  · rename_i zero
    apply List.count_eq_one_of_mem once
    apply up_phases run _ among
    rcases up_counted run rfl reached with before | up | none
    · omega
    · exact up
    · cases none
  · rename_i positive
    apply List.count_eq_zero.mpr
    intro member
    rcases (entered target member).2 with root | zero
    · obtain rfl := Option.some.inj root
      exact positive down
    · exact positive zero.1

end Ifupdown
