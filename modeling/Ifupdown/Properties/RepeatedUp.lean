import Ifupdown.Session.Standing
import Ifupdown.Session.Stanzas
import Ifupdown.Session.Wraparound

/-! Repeating an `ifup` that has succeeded. -/
namespace Ifupdown

variable {interfaces : Interfaces} {sys : System} {env : Env} {opts : LifExecuteOpts} {cmd : Command}
  {args names : List Str} {w w' : World} {x y : Str} {mark : Bool}

def World.Fulfils (interfaces : Interfaces) (w : World) (cmd : Command) : Prop :=
  ∀ x, cmd.Targets interfaces x → w.Stands (!cmd.matchOpts.isAuto) x

theorem resolve_standing (ready : w.Ready interfaces) (plain : 61 ∉ arg) (stands : w.Stands true (arg.take 4095)) :
    resolveArgument w arg = some (arg.take 4095) := by
  have known : (lifDictFind w.collection.entries (arg.take 4095)).isSome = true := by
    rcases stands.up with error | ⟨counted, -⟩
    · unfold Collection.iface at error
      cases found : lifDictFind w.collection.entries (arg.take 4095) with
      | some interface => rfl
      | none =>
        rw [found, Option.getD_none] at error
        unfold lifInterfaceInit at error
        split at error <;> cases error
    · exact counted_known counted
  cases resolved : resolveArgument w arg with
  | some iface => rw [(resolveArgument_plain ready plain resolved).1, splitAlias_plain plain]
  | none =>
    unfold resolveArgument at resolved
    rw [splitAlias_plain plain] at resolved
    dsimp only at resolved
    rw [known] at resolved
    split at resolved <;> cases resolved

theorem linked_stands {calls : List Call} (linked : Linked w calls w')
    (ups : ∀ call ∈ calls, call.Made interfaces ∧ call.up = true ∧ call.opts = opts) (stands : w.Stands mark y) :
    w'.Stands mark y := by
  refine linked_invariant (p := fun w => w.Stands mark y) linked stands fun call member before => ?_
  obtain ⟨made, up, -⟩ := ups call member
  have changed := made.changed
  rw [up] at changed
  exact before.kept changed

theorem named_stands (force : opts.force = false) (ready : w.Ready interfaces) (plain : ∀ arg ∈ args, 61 ∉ arg)
    (h : changeNamedInterfaces env opts true args w = (true, w')) :
    ∀ arg ∈ args, w'.Stands true (arg.take 4095) := by
  induction args generalizing w with
  | nil => simp
  | cons arg rest ih =>
    obtain ⟨head, tail⟩ := List.forall_mem_cons.mp plain
    unfold changeNamedInterfaces at h
    cases resolved : resolveArgument w arg with
    | none =>
      rw [resolved] at h
      cases h
    | some iface =>
      obtain ⟨same, short⟩ := resolveArgument_plain ready head resolved
      have cut : iface = arg.take 4095 := by rw [same, splitAlias_plain head]
      rw [resolved] at h
      dsimp only at h
      rw [← same] at h
      rcases result : changeInterface env opts w iface iface true true with ⟨_ | _, after⟩
      · rw [result] at h
        cases h
      · rw [result] at h
        have next := changed_ready (changeInterface_changed force ready.pending result) ready short
        obtain ⟨linked, -, calls⟩ := namedCalls_linked force next tail h
        have up := changeInterface_stands force ready.pending result
        rw [cut] at up
        exact List.forall_mem_cons.mpr ⟨linked_stands linked calls up, ih next tail h⟩

theorem auto_stands (force : opts.force = false) (ready : w.Ready interfaces) {matchOpts : MatchOptions}
    (auto : matchOpts.isAuto = true) (h : changeAutoInterfaces env opts matchOpts true names w = (true, w')) :
    ∀ name ∈ names, matchOpts.passesOver (interfaces.collection.iface name) = false → w'.Stands false name := by
  induction names generalizing w with
  | nil => simp
  | cons name rest ih =>
    unfold changeAutoInterfaces at h
    dsimp only at h
    by_cases passed : matchOpts.passesOver (w.collection.iface name) = true
    · rw [if_pos passed] at h
      refine List.forall_mem_cons.mpr ⟨fun taken => ?_, ih ready h⟩
      rw [passesOver_ready ready, taken] at passed
      cases passed
    · rw [if_neg passed, Collection.iface_ifname] at h
      rcases result : changeInterface env opts w name name true false with ⟨ok, after⟩
      rw [result] at h
      dsimp only at h
      rcases tail : changeAutoInterfaces env opts matchOpts true rest after with ⟨ret, last⟩
      rw [tail] at h
      obtain ⟨both, rfl⟩ := Prod.mk.inj h
      obtain ⟨rfl, rfl⟩ : ok = true ∧ ret = true := by simpa using both
      have next := changed_ready (changeInterface_changed force ready.pending result) ready
        (auto_name_short ready auto passed)
      obtain ⟨linked, -, calls⟩ := autoCalls_linked force next auto tail
      have up := changeInterface_stands force ready.pending result
      exact List.forall_mem_cons.mpr ⟨fun _ => linked_stands linked calls up, ih next tail⟩

/-- A successful `ifup` brings up all that it is about. -/
theorem command_fulfils (force : opts.force = false) (ready : w.Ready interfaces) (plain : cmd.Plain)
    (up : cmd.up = true) (h : changeInterfaces env opts cmd w = (true, w')) : w'.Fulfils interfaces cmd := by
  unfold changeInterfaces at h
  intro x target
  unfold Command.Targets at target
  cases auto : cmd.matchOpts.isAuto with
  | true =>
    rw [auto, if_pos rfl, up] at h
    rw [auto, if_pos rfl] at target
    exact auto_stands force ready auto h x (auto_listed ready auto target) target
  | false =>
    rw [auto, if_neg Bool.false_ne_true, up] at h
    rw [auto, if_neg Bool.false_ne_true] at target
    obtain ⟨arg, member, rfl⟩ := target
    exact named_stands force ready plain h arg member

theorem named_rests (force : opts.force = false) (locked : ∀ x, acquireStateLock env opts x = true)
    (ready : w.Ready interfaces) (plain : ∀ arg ∈ args, 61 ∉ arg)
    (stands : ∀ arg ∈ args, w.Stands true (arg.take 4095)) :
    ∃ w', changeNamedInterfaces env opts true args w = (true, w') ∧ w.Rests w' := by
  induction args generalizing w with
  | nil => exact ⟨w, rfl, rfl, rfl, rfl⟩
  | cons arg rest ih =>
    obtain ⟨head, tail⟩ := List.forall_mem_cons.mp plain
    obtain ⟨own, others⟩ := List.forall_mem_cons.mp stands
    have short : (arg.take 4095).length < 4096 := by
      rw [List.length_take]
      omega
    obtain ⟨after, result, rests⟩ := changeInterface_rests force (locked _) own
    have changed := changeInterface_changed force ready.pending result
    obtain ⟨last, done, later⟩ := ih (changed_ready changed ready short) tail fun other member =>
      (others other member).kept changed
    refine ⟨last, ?_, rests.trans later⟩
    unfold changeNamedInterfaces
    rw [resolve_standing ready head own, splitAlias_plain head]
    dsimp only
    rw [result]
    exact done

theorem auto_rests (force : opts.force = false) (locked : ∀ x, acquireStateLock env opts x = true)
    (ready : w.Ready interfaces) {matchOpts : MatchOptions} (auto : matchOpts.isAuto = true)
    (stands : ∀ x, matchOpts.passesOver (interfaces.collection.iface x) = false → w.Stands false x) (names : List Str) :
    ∃ w', changeAutoInterfaces env opts matchOpts true names w = (true, w') ∧ w.Rests w' := by
  induction names generalizing w with
  | nil => exact ⟨w, rfl, rfl, rfl, rfl⟩
  | cons name rest ih =>
    unfold changeAutoInterfaces
    dsimp only
    by_cases passed : matchOpts.passesOver (w.collection.iface name) = true
    · rw [if_pos passed]
      exact ih ready stands
    · have taken : matchOpts.passesOver (interfaces.collection.iface name) = false := by
        rw [← passesOver_ready ready]
        exact Bool.eq_false_of_not_eq_true passed
      obtain ⟨after, result, rests⟩ := changeInterface_rests force (locked name) (stands name taken)
      have changed := changeInterface_changed force ready.pending result
      obtain ⟨last, done, later⟩ := ih (changed_ready changed ready (auto_name_short ready auto passed)) fun x other =>
        (stands x other).kept changed
      refine ⟨last, ?_, rests.trans later⟩
      rw [if_neg passed, Collection.iface_ifname, result]
      dsimp only
      rw [done]
      rfl

theorem command_rests (force : opts.force = false) (locked : ∀ x, acquireStateLock env opts x = true)
    (ready : w.Ready interfaces) (plain : cmd.Plain) (up : cmd.up = true) (fulfils : w.Fulfils interfaces cmd) :
    ∃ w', changeInterfaces env opts cmd w = (true, w') ∧ w.Rests w' := by
  unfold World.Fulfils Command.Targets at fulfils
  unfold changeInterfaces
  rw [up]
  cases auto : cmd.matchOpts.isAuto with
  | true =>
    simp only [auto, if_true, Bool.not_true] at fulfils
    rw [if_pos rfl]
    exact auto_rests force locked ready auto fulfils _
  | false =>
    simp only [auto, Bool.false_eq_true, if_false, Bool.not_false] at fulfils
    rw [if_neg Bool.false_ne_true]
    exact named_rests force locked ready plain fun arg member => fulfils _ ⟨arg, member, rfl⟩

theorem World.Stands.reloaded (stands : w.Stands mark x) (ready : w.Ready interfaces) :
    (w.save.load interfaces).Stands mark x := by
  have next : (w.save.load interfaces).Ready interfaces := load_ready (ready_sound ready) interfaces
  obtain ⟨ordinary, up⟩ := stands
  refine ⟨?_, ?_⟩
  · rw [stanza_isTemplate next.stanza, ← stanza_isTemplate ready.stanza]
    exact ordinary
  · rw [stanza_hasConfigError next.stanza, ← stanza_hasConfigError ready.stanza, reload_count ready]
    refine up.imp id fun ⟨counted, explicit⟩ => ⟨counted, fun marked => ?_⟩
    rw [reload_explicit ready fun zero => absurd zero counted.ne']
    exact explicit marked

/-- The state and what each `ifup` is about outlast any further one. -/
theorem ups_fulfil {session : List Invocation} (sound : sys.saved.Sound)
    (ups : ∀ inv ∈ session, inv.Plain ∧ inv.command.up = true)
    (fulfils : (sys.load interfaces).Fulfils interfaces cmd) :
    (runSession interfaces session sys).saved.Sound ∧
      ((runSession interfaces session sys).load interfaces).Fulfils interfaces cmd := by
  induction session generalizing sys with
  | nil => exact ⟨sound, fulfils⟩
  | cons inv rest ih =>
    obtain ⟨⟨plain, up⟩, tail⟩ := List.forall_mem_cons.mp ups
    suffices next : (runInvocation interfaces sys inv).saved.Sound ∧
        ((runInvocation interfaces sys inv).load interfaces).Fulfils interfaces cmd from ih next.1 tail next.2
    unfold runInvocation ifupdownMain updateStateFileAndExit
    split
    · exact ⟨sound, fulfils⟩
    cases inv.opts.mock with
    | true => exact ⟨sound, fulfils⟩
    | false =>
      rcases result : changeInterfaces inv.env inv.opts inv.command (sys.load interfaces) with ⟨rc, w⟩
      obtain ⟨linked, ready, calls⟩ := commandCalls_linked plain.1 (load_ready sound interfaces) plain.2 result
      rw [up] at calls
      exact ⟨ready_sound ready, fun x target => (linked_stands linked calls (fulfils x target)).reloaded ready⟩

/-- The repetition, as long as the counts are not bounded. -/
theorem session_again {inv again : Invocation} {between : List Invocation}
    (sound : sys.saved.Sound) (plain : inv.Plain) (up : inv.command.up = true) (real : inv.opts.mock = false)
    (success : (ifupdownMain inv.env inv.opts interfaces inv.command sys).1 = true)
    (ups : ∀ other ∈ between, other.Plain ∧ other.command.up = true)
    (same : again.command = inv.command) (unforced : again.opts.force = false)
    (locked : ∀ x, acquireStateLock again.env again.opts x = true) :
    let before := runSession interfaces (inv :: between) sys
    (!again.command.matchOpts.isAuto && again.command.args.isEmpty) = false ∧ before.saved.Sound ∧
      ∃ w, changeInterfaces again.env again.opts again.command (before.load interfaces) = (true, w) ∧
        (before.load interfaces).Rests w ∧ w.Ready interfaces := by
  have used : (!inv.command.matchOpts.isAuto && inv.command.args.isEmpty) = false := by
    by_contra usage
    rw [Bool.not_eq_false] at usage
    rw [ifupdownMain, if_pos usage] at success
    cases success
  obtain ⟨sound', fulfils⟩ : (runInvocation interfaces sys inv).saved.Sound ∧
      ((runInvocation interfaces sys inv).load interfaces).Fulfils interfaces inv.command := by
    unfold runInvocation ifupdownMain updateStateFileAndExit at *
    rw [used, if_neg Bool.false_ne_true] at success ⊢
    rcases result : changeInterfaces inv.env inv.opts inv.command (sys.load interfaces) with ⟨rc, w⟩
    rw [result] at success
    obtain rfl : rc = true := success
    have ready := (commandCalls_linked plain.1 (load_ready sound interfaces) plain.2 result).2.1
    have fulfils := command_fulfils plain.1 (load_ready sound interfaces) plain.2 up result
    simp only [real, Bool.false_eq_true, if_false]
    exact ⟨ready_sound ready, fun x target => (fulfils x target).reloaded ready⟩
  dsimp only
  rw [show runSession interfaces (inv :: between) sys =
    runSession interfaces between (runInvocation interfaces sys inv) from rfl, same]
  obtain ⟨sound, fulfils⟩ := ups_fulfil sound' ups fulfils
  generalize runSession interfaces between (runInvocation interfaces sys inv) = before at sound fulfils
  have ready := load_ready sound interfaces
  obtain ⟨w, result, rests⟩ := command_rests unforced locked ready plain.2 up fulfils
  exact ⟨used, sound, w, result, rests, (commandCalls_linked unforced ready plain.2 result).2.1⟩

/-- Once an `ifup` of named interfaces, or of all automatic ones, has succeeded, and whatever else is
then brought up or fails to come up, the same command succeeds without running anything or changing
any record. It is enough that no count would have passed the last one that is read back. -/
theorem ifup_again (interfaces : Interfaces) {inv again : Invocation} {between : List Invocation}
    (sound : sys.saved.Sound) (plain : inv.Plain) (up : inv.command.up = true) (real : inv.opts.mock = false)
    (success : (ifupdownMain64 inv.env inv.opts interfaces inv.command sys).1 = true)
    (ups : ∀ other ∈ between, other.Plain ∧ other.command.up = true)
    (small : (runSession interfaces (inv :: between) sys).Small)
    (same : again.command = inv.command) (unforced : again.opts.force = false)
    (locked : ∀ x, acquireStateLock again.env again.opts x = true) :
    let before := runSession64 interfaces (inv :: between) sys
    let after := runInvocation64 interfaces before again
    (ifupdownMain64 again.env again.opts interfaces again.command before).1 = true ∧
      after.trace = before.trace ∧ after.executed = before.executed ∧
      lifDictFind after.saved.records = lifDictFind before.saved.records := by
  obtain ⟨next, -, first⟩ := main64_agrees interfaces sound plain up real
  rw [first (small.down (session64_agrees next ups).1)] at success
  obtain ⟨used, stored, w, result, rests, ready⟩ := session_again sound plain up real success ups same unforced locked
  dsimp only
  rw [(session64_agrees sound (List.forall_mem_cons.mpr ⟨⟨plain, up⟩, ups⟩)).2 small]
  generalize runSession interfaces (inv :: between) sys = before at small stored result rests
  have bounded : w.Bounded := by
    intro x
    rw [← recorded_records, rests.records, load_records stored]
    exact (small x).trans (by decide)
  have result64 := (commands64_agrees again.env again.opts (same ▸ up) (load_pending before interfaces)).2 (by rw [result]; exact bounded)
  unfold runInvocation64 ifupdownMain64 updateStateFileAndExit
  rw [used, if_neg Bool.false_ne_true, load64_small stored small, result64, result]
  refine ⟨rfl, ?_⟩
  cases again.opts.mock with
  | true => exact ⟨rfl, rfl, rfl⟩
  | false =>
    refine ⟨rests.trace, rests.executed, funext fun x => ?_⟩
    refine (ready.synced x).trans ?_
    rw [← load_records stored interfaces, ← rests.records]
    rfl

theorem ifup_again_tunnels :
    let before := runSession64 fork [ifup ["tun0"], ifup ["tun1", "eth0"]] freshSystem
    let after := runInvocation64 fork before (ifup ["tun0"])
    (ifupdownMain64 calm {} fork { up := true, args := [str "tun0"] } before).1 = true ∧
      after.trace = before.trace ∧ after.executed = before.executed ∧
      lifDictFind after.saved.records = lifDictFind before.saved.records :=
  @ifup_again freshSystem fork (ifup ["tun0"]) (ifup ["tun0"]) [ifup ["tun1", "eth0"]] sound_empty (by decide) rfl rfl
    (by decide) (by decide) (small_entries (by decide)) rfl rfl (fun _ => rfl)

end Ifupdown
