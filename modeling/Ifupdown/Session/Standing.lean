import Ifupdown.Session.Forced

/-! Interfaces that a successful `ifup` leaves up, and further ones of them. -/
namespace Ifupdown

variable {interfaces : Interfaces} {env : Env} {opts : LifExecuteOpts} {w w' : World} {x y : Str} {mark : Bool}
  {matchOpts : MatchOptions}

/-- An interface that is passed over for its errors, or that is up, and marked as explicit if it has been named. -/
structure World.Stands (w : World) (mark : Bool) (x : Str) : Prop where
  ordinary : (w.collection.iface x).isTemplate = false
  up : (w.collection.iface x).hasConfigError = true ∨
    0 < w.count x ∧ (mark = true → (w.collection.iface x).isExplicit = true)

theorem markExplicit_explicit (w : World) (x y : Str) : ((w.markExplicit x x).collection.iface y).isExplicit =
    (decide (x = y) || (w.collection.iface y).isExplicit) := by
  simp only [World.markExplicit, iface_setExplicit]
  by_cases same : x = y <;> simp [same]

theorem markExplicit_stands (counted : 0 < w.count x) (ordinary : (w.collection.iface x).isTemplate = false) :
    (w.markExplicit x x).Stands mark x := by
  refine ⟨?_, Or.inr ⟨?_, fun _ => ?_⟩⟩
  · simp only [World.markExplicit, iface_setExplicit, if_true]
    exact ordinary
  · rw [count_markExplicit]
    exact counted
  · rw [markExplicit_explicit, decide_eq_true rfl, Bool.true_or]

theorem World.Stands.marked (stands : w.Stands mark y) (x : Str) : (w.markExplicit x x).Stands mark y := by
  obtain ⟨ordinary, up⟩ := stands
  refine ⟨?_, ?_⟩
  · simp only [World.markExplicit, iface_setExplicit]
    split <;> exact ordinary
  · rw [count_markExplicit, markExplicit_explicit]
    refine up.imp (fun error => ?_) (fun held => ⟨held.1, fun marked => ?_⟩)
    · simp only [World.markExplicit, iface_setExplicit]
      split <;> exact error
    · rw [held.2 marked, Bool.or_true]

theorem World.Stands.raised (stands : w.Stands mark y) (run : Follows Up opts True [] (.run x x) w ok w') : w'.Stands mark y := by
  obtain ⟨ordinary, up⟩ := stands
  obtain ⟨ev, run, evolves⟩ := run
  have same := evolves.config y
  refine ⟨(congrArg LifInterface.isTemplate same).trans ordinary, ?_⟩
  refine up.imp (congrArg LifInterface.hasConfigError same).trans fun ⟨counted, explicit⟩ => ⟨?_, fun marked => ?_⟩
  · exact Nat.lt_of_lt_of_le counted (up_mono run y)
  · exact (congrArg LifInterface.isExplicit same).trans (explicit marked)

/-- What is up stays up while others are brought up. -/
theorem World.Stands.kept (stands : w.Stands mark y) (changed : Changed opts x true w ok w') : w'.Stands mark y := by
  cases changed with
  | untouched => exact stands
  | marked => exact stands.marked x
  | up _ _ run => exact stands.raised run
  | upMarked _ _ run => exact (stands.raised run).marked x

theorem changeInterface_stands (plain : opts.force = false) (pending : w.Pending [])
    (h : changeInterface env opts w x x true mark = (true, w')) : w'.Stands mark x := by
  unfold changeInterface at h
  split at h
  · cases h
  unfold skipInterface at h
  by_cases template : (w.collection.iface x).isTemplate = true
  · simp only [template, if_true, runToEnd_template pending template] at h
    cases h
  have ordinary := Bool.eq_false_of_not_eq_true template
  by_cases error : (w.collection.iface x).hasConfigError = true
  · simp only [template, error, plain, if_true] at h
    cases h
    exact ⟨ordinary, Or.inl error⟩
  simp only [template, error, plain, if_false, Bool.false_eq_true] at h
  by_cases counted : w.count x = 0
  · have zero : (w.collection.iface x).refcount = 0 := counted
    simp only [zero, gt_iff_lt, lt_self_iff_false, decide_false, Bool.and_false, Bool.false_eq_true, if_false, Bool.not_true,
      Bool.false_and, Bool.true_and] at h
    rcases result : runToEnd env opts w x x true with ⟨_ | _, w₁⟩
    · rw [result] at h
      cases h
    · have follows := runToEnd_up pending result
      have up := follows_up_counted follows
      have same : (w₁.collection.iface x).isTemplate = false := by
        obtain ⟨ev, -, evolves⟩ := follows
        exact (congrArg LifInterface.isTemplate (evolves.config x)).trans ordinary
      rw [result] at h
      cases mark with
      | false =>
        cases h
        exact ⟨same, Or.inr ⟨up, nofun⟩⟩
      | true =>
        cases h
        exact markExplicit_stands up same
  · have positive : 0 < (w.collection.iface x).refcount := Nat.pos_of_ne_zero counted
    simp only [positive, decide_true, Bool.and_true, if_true] at h
    cases mark with
    | false =>
      cases h
      exact ⟨ordinary, Or.inr ⟨positive, nofun⟩⟩
    | true =>
      cases h
      exact markExplicit_stands positive ordinary

/-- Nothing has happened that the state or the system would tell. -/
structure World.Rests (w w' : World) : Prop where
  records : w'.records = w.records
  trace : w'.trace = w.trace
  executed : w'.executed = w.executed

theorem World.Rests.trans {w₁ w₂ : World} (first : w.Rests w₁) (second : w₁.Rests w₂) : w.Rests w₂ :=
  ⟨second.records.trans first.records, second.trace.trans first.trace, second.executed.trans first.executed⟩

theorem markExplicit_rests (counted : 0 < w.count x) (explicit : (w.collection.iface x).isExplicit = true) :
    w.Rests (w.markExplicit x x) := by
  refine ⟨funext fun y => ?_, rfl, rfl⟩
  rw [records_markExplicit counted]
  split
  · rename_i same
    subst same
    have positive : (w.collection.iface x).refcount ≠ 0 := counted.ne'
    simp [World.records, LifInterface.record, positive, explicit, World.count]
  · rfl

theorem changeInterface_rests (plain : opts.force = false) (locked : acquireStateLock env opts x = true) (stands : w.Stands mark x) :
    ∃ w', changeInterface env opts w x x true mark = (true, w') ∧ w.Rests w' := by
  obtain ⟨ordinary, up⟩ := stands
  unfold changeInterface skipInterface
  simp only [locked, Bool.not_true, Bool.false_eq_true, if_false, ordinary]
  by_cases error : (w.collection.iface x).hasConfigError = true
  · simp only [error, plain, if_true]
    exact ⟨w, rfl, rfl, rfl, rfl⟩
  · obtain ⟨counted, explicit⟩ := up.resolve_left error
    have positive : 0 < (w.collection.iface x).refcount := counted
    simp only [error, plain, if_false, Bool.false_eq_true, positive, decide_true, Bool.and_true, if_true]
    cases mark with
    | false => exact ⟨w, rfl, rfl, rfl, rfl⟩
    | true => exact ⟨_, rfl, markExplicit_rests counted (explicit rfl)⟩

def Command.Targets (interfaces : Interfaces) (cmd : Command) (x : Str) : Prop :=
  if cmd.matchOpts.isAuto then cmd.matchOpts.passesOver (interfaces.collection.iface x) = false
  else ∃ arg ∈ cmd.args, x = arg.take 4095

theorem passesOver_ready (ready : w.Ready interfaces) (matchOpts : MatchOptions) (x : Str) :
    matchOpts.passesOver (w.collection.iface x) = matchOpts.passesOver (interfaces.collection.iface x) := by
  unfold MatchOptions.passesOver
  rw [stanza_isAuto ready.stanza, Collection.iface_ifname, Collection.iface_ifname]

theorem auto_name_short (ready : w.Ready interfaces) (auto : matchOpts.isAuto = true)
    (taken : ¬ matchOpts.passesOver (w.collection.iface x) = true) : x.length < 4096 := by
  apply auto_short ready
  unfold MatchOptions.passesOver at taken
  simp only [auto, Bool.true_and, Bool.or_eq_true, not_or, Bool.not_eq_true', Bool.not_eq_false] at taken
  exact taken.1.1

theorem auto_known {collection : Collection} (auto : matchOpts.isAuto = true)
    (taken : matchOpts.passesOver (collection.iface x) = false) : x ∈ lifDictKeys collection.entries := by
  cases found : lifDictFind collection.entries x with
  | some interface => exact List.mem_map_of_mem (lifDictFind_mem found)
  | none =>
    unfold MatchOptions.passesOver Collection.iface at taken
    rw [found, Option.getD_none] at taken
    have implicit : (lifInterfaceInit x).isAuto = false := by
      unfold lifInterfaceInit
      split <;> rfl
    rw [auto, implicit] at taken
    cases taken

theorem auto_listed (ready : w.Ready interfaces) (auto : matchOpts.isAuto = true)
    (taken : matchOpts.passesOver (interfaces.collection.iface x) = false) :
    x ∈ lifDictKeys w.collection.entries := by
  rw [← passesOver_ready ready] at taken
  exact auto_known auto taken

end Ifupdown
