import Ifupdown.Session.Memory

/-! One command after the other, taken apart into its calls of `change_interface`. -/
namespace Ifupdown

/-- A process: what it meets, its options and its command line. -/
structure Invocation where
  env : Env
  opts : LifExecuteOpts := {}
  command : Command

def runInvocation (interfaces : Interfaces) (sys : System) (inv : Invocation) : System :=
  (ifupdownMain inv.env inv.opts interfaces inv.command sys).2

def runSession (interfaces : Interfaces) (session : List Invocation) (sys : System) : System :=
  session.foldl (runInvocation interfaces) sys

structure Call where
  opts : LifExecuteOpts
  iface : Str
  up : Bool
  before : World
  ok : Bool
  after : World

def Call.events (call : Call) : List (Event Str) :=
  call.after.trace.drop call.before.trace.length

def namedCalls (env : Env) (opts : LifExecuteOpts) (up : Bool) : List Str → World → List Call
  | [], _ => []
  | arg :: rest, w =>
    match resolveArgument w arg with
    | none => []
    | some iface =>
      let (ok, after) := changeInterface env opts w iface (splitAlias arg).1 up true
      ⟨opts, iface, up, w, ok, after⟩ :: if ok then namedCalls env opts up rest after else []

def autoCalls (env : Env) (opts : LifExecuteOpts) (matchOpts : MatchOptions) (up : Bool) :
    List Str → World → List Call
  | [], _ => []
  | name :: rest, w =>
    let interface := w.collection.iface name
    if matchOpts.passesOver interface then autoCalls env opts matchOpts up rest w
    else
      let (ok, after) := changeInterface env opts w name interface.ifname up false
      ⟨opts, name, up, w, ok, after⟩ :: autoCalls env opts matchOpts up rest after

def commandCalls (env : Env) (opts : LifExecuteOpts) (cmd : Command) (w : World) : List Call :=
  if cmd.matchOpts.isAuto then
    autoCalls env opts cmd.matchOpts cmd.up (lifDictKeys w.collection.entries) w
  else namedCalls env opts cmd.up cmd.args w

/-- The calls of a session, those of dry runs apart. -/
def sessionCalls (interfaces : Interfaces) : List Invocation → System → List Call
  | [], _ => []
  | inv :: rest, sys =>
    (if inv.opts.mock then [] else commandCalls inv.env inv.opts inv.command (sys.load interfaces)) ++
      sessionCalls interfaces rest (runInvocation interfaces sys inv)

/-- No argument is a `physical=logical` pair. -/
def Command.Plain (cmd : Command) : Prop := ∀ arg ∈ cmd.args, 61 ∉ arg

instance (cmd : Command) : Decidable cmd.Plain :=
  inferInstanceAs (Decidable (∀ arg ∈ cmd.args, 61 ∉ arg))

/-- Neither `--force` nor an alias is used. -/
def Invocation.Plain (inv : Invocation) : Prop := inv.opts.force = false ∧ inv.command.Plain

instance (inv : Invocation) : Decidable inv.Plain :=
  inferInstanceAs (Decidable (inv.opts.force = false ∧ inv.command.Plain))

/-- `Changed opts iface up w ok w'` is all that `change_interface` can do without `--force`. -/
inductive Changed (opts : LifExecuteOpts) (iface : Str) : Bool → World → Bool → World → Prop where
  | untouched : Changed opts iface up w ok w
  | marked (counted : 0 < w.count iface) :
      Changed opts iface true w true (w.markExplicit iface iface)
  | up (usable : (w.collection.iface iface).hasConfigError = false) (uncounted : w.count iface = 0)
      (run : Follows Up opts True [] (.run iface iface) w ok w') :
      Changed opts iface true w ok w'
  | upMarked (usable : (w.collection.iface iface).hasConfigError = false) (uncounted : w.count iface = 0)
      (run : Follows Up opts True [] (.run iface iface) w true w₁) :
      Changed opts iface true w true (w₁.markExplicit iface iface)
  | down (usable : (w.collection.iface iface).hasConfigError = false) (counted : 0 < w.count iface)
      (run : Follows Down opts True [] (.run iface iface) w ok w') :
      Changed opts iface false w ok w'

theorem runToEnd_up {w : World} (pending : w.Pending []) (h : runToEnd env opts w iface iface true = (ok, w')) :
    Follows Up opts True [] (.run iface iface) w ok w' := by
  have result := runToEnd_eq pending env opts iface iface true
  rw [h] at result
  obtain ⟨ev, run, evolves⟩ := lifLifecycleRun_up pending result
  exact ⟨ev, run, evolves.imp (fun _ => rfl)⟩

theorem runToEnd_template {w : World} (pending : w.Pending [])
    (template : (w.collection.iface iface).isTemplate = true) :
    runToEnd env opts w iface lifname up = (false, w) := by
  have idle : (w.collection.iface iface).isPending = false := pending iface
  unfold runToEnd lifecycleFuel lifLifecycleRun
  simp [idle, template]

theorem changeInterface_down {w : World} (plain : opts.force = false) (pending : w.Pending [])
    (h : changeInterface env opts w iface lifname false updateState = (ok, w')) :
    w' = w ∨ (w.collection.iface iface).hasConfigError = false ∧ 0 < w.count iface ∧
      Follows Down opts (lifname = iface) [] (.run iface lifname) w ok w' := by
  unfold changeInterface at h
  split at h
  · cases h
    exact Or.inl rfl
  unfold skipInterface at h
  by_cases template : (w.collection.iface iface).isTemplate = true
  · simp only [template, if_true, runToEnd_template pending template] at h
    cases h
    exact Or.inl rfl
  by_cases error : (w.collection.iface iface).hasConfigError = true
  · simp only [template, error, plain, if_true] at h
    cases h
    exact Or.inl rfl
  simp only [template, error, plain, if_false, Bool.false_eq_true, Bool.false_and, Bool.not_false,
    Bool.true_and] at h
  by_cases counted : (w.collection.iface iface).refcount = 0
  · simp only [counted, beq_self_eq_true, if_true] at h
    cases h
    exact Or.inl rfl
  have positive : ((w.collection.iface iface).refcount == 0) = false := by simpa using counted
  have result := runToEnd_eq pending env opts iface lifname false
  rcases outcome : runToEnd env opts w iface lifname false with ⟨done, w₁⟩
  rw [outcome] at result
  have follows := lifLifecycleRun_down pending result
  simp only [positive, Bool.false_eq_true, if_false, outcome] at h
  refine Or.inr ⟨Bool.eq_false_of_not_eq_true error, Nat.pos_of_ne_zero counted, ?_⟩
  cases done <;> cases h <;> exact follows

def upCommand (arg : Str) : Command := { up := true, args := [arg] }

def downCommand (arg : Str) : Command := { up := false, args := [arg] }

theorem downCommand_cases {sys : System} (plain : opts.force = false)
    (named : resolveArgument (sys.load interfaces) arg = some iface)
    (h : ifupdownMain env opts interfaces (downCommand arg) sys = (rc, sys')) :
    sys' = sys ∨ ∃ w' ev, ((sys.load interfaces).collection.iface iface).hasConfigError = false ∧
      0 < (sys.load interfaces).count iface ∧
      Down ((sys.load interfaces).collection.graph opts) [] (.run iface (splitAlias arg).1)
        (sys.load interfaces).count rc w'.count ev ∧
      Evolves ((splitAlias arg).1 = iface) [] (sys.load interfaces) w' ev ∧
      sys' = { saved := w'.state, executed := w'.executed, trace := w'.trace } := by
  unfold ifupdownMain updateStateFileAndExit changeInterfaces at h
  simp only [downCommand, Bool.not_false, List.isEmpty_cons, Bool.and_false, Bool.false_eq_true, if_false,
    changeNamedInterfaces, named] at h
  by_cases mock : opts.mock = true
  · simp only [mock, if_true] at h
    exact Or.inl (Prod.mk.inj h).2.symm
  simp only [mock, if_false, Bool.false_eq_true] at h
  rcases result : changeInterface env opts (sys.load interfaces) iface (splitAlias arg).1 false true with ⟨ok, w'⟩
  have run := changeInterface_down plain (load_pending sys interfaces) result
  have outcome : ok = rc ∧ { saved := w'.state, executed := w'.executed, trace := w'.trace } = sys' := by
    rw [result] at h
    cases ok <;> simpa using h
  obtain ⟨rfl, rfl⟩ := outcome
  rcases run with rfl | ⟨usable, counted, ev, run, evolves⟩
  · exact Or.inl rfl
  · exact Or.inr ⟨w', ev, usable, counted, run, evolves, rfl⟩

theorem changeInterface_changed {w : World} (plain : opts.force = false) (pending : w.Pending [])
    (h : changeInterface env opts w iface iface up updateState = (ok, w')) :
    Changed opts iface up w ok w' := by
  cases up with
  | false =>
    rcases changeInterface_down plain pending h with rfl | ⟨usable, counted, ev, run, evolves⟩
    · exact .untouched
    · exact .down usable counted ⟨ev, run, evolves.imp (fun _ => rfl)⟩
  | true =>
    unfold changeInterface at h
    split at h
    · cases h
      exact .untouched
    unfold skipInterface at h
    by_cases template : (w.collection.iface iface).isTemplate = true
    · simp only [template, if_true, runToEnd_template pending template] at h
      cases h
      exact .untouched
    by_cases error : (w.collection.iface iface).hasConfigError = true
    · simp only [template, error, plain, if_true] at h
      cases h
      exact .untouched
    have usable := Bool.eq_false_of_not_eq_true error
    rcases result : runToEnd env opts w iface iface true with ⟨done, w₁⟩
    simp only [template, error, plain, if_false, Bool.false_eq_true] at h
    by_cases counted : w.count iface = 0
    · have follows := runToEnd_up pending result
      have zero : (w.collection.iface iface).refcount = 0 := counted
      simp only [zero, gt_iff_lt, lt_self_iff_false, decide_false, Bool.and_false, Bool.false_eq_true,
        if_false, Bool.not_true, Bool.false_and, Bool.true_and, result] at h
      cases done with
      | false =>
        cases h
        exact .up usable counted follows
      | true =>
        cases updateState with
        | false =>
          cases h
          exact .up usable counted follows
        | true =>
          cases h
          exact .upMarked usable counted follows
    · have positive : 0 < (w.collection.iface iface).refcount := Nat.pos_of_ne_zero counted
      simp only [positive, decide_true, Bool.and_true, if_true] at h
      cases updateState with
      | false =>
        cases h
        exact .untouched
      | true =>
        cases h
        exact .marked positive

theorem changed_ready {w w' : World} (h : Changed opts iface up w ok w') (ready : w.Ready interfaces)
    (short : iface.length < 4096) : w'.Ready interfaces := by
  cases h with
  | untouched => exact ready
  | marked counted => exact markExplicit_ready ready counted
  | up _ _ run => exact follows_up_ready ready short run
  | upMarked _ _ run =>
    exact markExplicit_ready (follows_up_ready ready short run) (follows_up_counted run)
  | down _ _ run => exact follows_down_ready ready run

def Linked : World → List Call → World → Prop
  | w, [], w' => w = w'
  | w, call :: rest, w' => call.before = w ∧ Linked call.after rest w'

/-- A call that has been made: where it starts, and what it has done. -/
structure Call.Made (interfaces : Interfaces) (call : Call) : Prop where
  plain : call.opts.force = false
  ready : call.before.Ready interfaces
  short : call.iface.length < 4096
  changed : Changed call.opts call.iface call.up call.before call.ok call.after

theorem events_eq {call : Call} (trace : call.after.trace = call.before.trace ++ ev) : call.events = ev := by
  rw [Call.events, trace, List.drop_left]

theorem records_counted {w : World} (record : w.records x = some rec) : 0 < w.count x := by
  unfold World.records LifInterface.record at record
  split at record
  · cases record
  · rename_i positive
    exact Nat.pos_of_ne_zero positive

theorem splitAlias_plain (plain : 61 ∉ arg) : splitAlias arg = (arg.take 4095, arg.take 4095) := by
  have absent : 61 ∉ strlcpy 4096 arg := fun member => plain (List.mem_of_mem_take member)
  rw [splitAlias, if_neg absent]
  rfl

theorem resolveArgument_plain {w : World} (ready : w.Ready interfaces) (plain : 61 ∉ arg)
    (h : resolveArgument w arg = some iface) : iface = (splitAlias arg).1 ∧ iface.length < 4096 := by
  rw [splitAlias_plain plain]
  have cut : (arg.take 4095).length < 4096 := by
    rw [List.length_take]
    omega
  unfold resolveArgument lifStateLookup at h
  rw [splitAlias_plain plain, ready.synced arg] at h
  by_cases counted : 0 < w.count arg
  · have short := ready.short arg counted
    have positive : (w.collection.iface arg).refcount ≠ 0 := counted.ne'
    have whole : arg.take 4095 = arg := List.take_of_length_le (by omega)
    simp only [LifInterface.record, positive, if_false, Collection.iface_ifname, whole] at h
    split at h
    · rename_i found
      split at found
      · cases found
        cases h
        exact ⟨whole.symm, short⟩
      · cases found
    · split at h
      · cases h
        exact ⟨whole.symm, short⟩
      · cases h
  · have zero : (w.collection.iface arg).refcount = 0 := by
      rw [World.count] at counted
      omega
    simp only [LifInterface.record, zero, if_true] at h
    split at h
    · cases h
      exact ⟨rfl, cut⟩
    · cases h

theorem namedCalls_linked {w w' : World} (force : opts.force = false) (ready : w.Ready interfaces)
    (plain : ∀ arg ∈ args, 61 ∉ arg) (h : changeNamedInterfaces env opts up args w = (rc, w')) :
    Linked w (namedCalls env opts up args w) w' ∧ w'.Ready interfaces ∧
      ∀ call ∈ namedCalls env opts up args w, call.Made interfaces ∧ call.up = up ∧ call.opts = opts := by
  induction args generalizing w with
  | nil =>
    cases h
    exact ⟨rfl, ready, by simp [namedCalls]⟩
  | cons arg rest ih =>
    obtain ⟨head, tail⟩ := List.forall_mem_cons.mp plain
    unfold changeNamedInterfaces at h
    unfold namedCalls
    cases resolved : resolveArgument w arg with
    | none =>
      rw [resolved] at h
      cases h
      exact ⟨rfl, ready, by simp⟩
    | some iface =>
      obtain ⟨same, short⟩ := resolveArgument_plain ready head resolved
      rw [resolved] at h
      dsimp only at h ⊢
      rw [← same] at h ⊢
      rcases result : changeInterface env opts w iface iface up true with ⟨ok, after⟩
      have changed := changeInterface_changed force ready.pending result
      have made : Call.Made interfaces ⟨opts, iface, up, w, ok, after⟩ := ⟨force, ready, short, changed⟩
      have next := changed_ready changed ready short
      rw [result] at h
      cases ok with
      | true =>
        obtain ⟨linked, last, calls⟩ := ih next tail h
        exact ⟨⟨rfl, linked⟩, last, List.forall_mem_cons.mpr ⟨⟨made, rfl, rfl⟩, calls⟩⟩
      | false =>
        cases h
        exact ⟨⟨rfl, rfl⟩, next, List.forall_mem_cons.mpr ⟨⟨made, rfl, rfl⟩, by simp⟩⟩

theorem auto_short {w : World} (ready : w.Ready interfaces)
    (auto : (w.collection.iface name).isAuto = true) : name.length < 4096 := by
  have parsed : (interfaces.collection.iface name).isAuto = true := by
    rw [← auto]
    exact (stanza_isAuto ready.stanza name).symm
  unfold Collection.iface at parsed
  cases found : lifDictFind interfaces.collection.entries name with
  | none =>
    rw [found, Option.getD_none] at parsed
    unfold lifInterfaceInit at parsed
    split at parsed <;> cases parsed
  | some interface => exact interfaces.short _ (lifDictFind_mem found)

theorem autoCalls_linked {w w' : World} (force : opts.force = false) (ready : w.Ready interfaces)
    (auto : matchOpts.isAuto = true) (h : changeAutoInterfaces env opts matchOpts up names w = (rc, w')) :
    Linked w (autoCalls env opts matchOpts up names w) w' ∧ w'.Ready interfaces ∧
      ∀ call ∈ autoCalls env opts matchOpts up names w,
        call.Made interfaces ∧ call.up = up ∧ call.opts = opts := by
  induction names generalizing w rc with
  | nil =>
    cases h
    exact ⟨rfl, ready, by simp [autoCalls]⟩
  | cons name rest ih =>
    unfold changeAutoInterfaces at h
    unfold autoCalls
    dsimp only at h ⊢
    by_cases passed : matchOpts.passesOver (w.collection.iface name) = true
    · rw [if_pos passed] at h ⊢
      exact ih ready h
    · rw [if_neg passed] at h ⊢
      rw [Collection.iface_ifname] at h ⊢
      have short : name.length < 4096 := by
        apply auto_short ready
        unfold MatchOptions.passesOver at passed
        simp only [auto, Bool.true_and, Bool.or_eq_true, not_or, Bool.not_eq_true', Bool.not_eq_false] at passed
        exact passed.1.1
      rcases result : changeInterface env opts w name name up false with ⟨ok, after⟩
      have changed := changeInterface_changed force ready.pending result
      rw [result] at h
      dsimp only at h
      rcases tail : changeAutoInterfaces env opts matchOpts up rest after with ⟨rc', last⟩
      rw [tail] at h
      cases h
      obtain ⟨linked, ready', calls⟩ := ih (changed_ready changed ready short) tail
      exact ⟨⟨rfl, linked⟩, ready',
        List.forall_mem_cons.mpr ⟨⟨⟨force, ready, short, changed⟩, rfl, rfl⟩, calls⟩⟩

/-- A command is its calls, one after the other. -/
theorem commandCalls_linked {w w' : World} (force : opts.force = false) (ready : w.Ready interfaces)
    (plain : cmd.Plain) (h : changeInterfaces env opts cmd w = (rc, w')) :
    Linked w (commandCalls env opts cmd w) w' ∧ w'.Ready interfaces ∧
      ∀ call ∈ commandCalls env opts cmd w, call.Made interfaces ∧ call.up = cmd.up ∧ call.opts = opts := by
  unfold changeInterfaces at h
  unfold commandCalls
  split
  · rename_i auto
    rw [if_pos auto] at h
    exact autoCalls_linked force ready auto h
  · rename_i named
    rw [if_neg named] at h
    exact namedCalls_linked force ready plain h

theorem linked_invariant {p : World → Prop} {w w' : World} {calls : List Call} (linked : Linked w calls w')
    (start : p w) (step : ∀ call ∈ calls, p call.before → p call.after) : p w' := by
  induction calls generalizing w with
  | nil =>
    subst linked
    exact start
  | cons call rest ih =>
    obtain ⟨rfl, linked⟩ := linked
    exact ih linked (step call List.mem_cons_self start)
      (fun call later => step call (List.mem_cons_of_mem _ later))

theorem runSession_append (interfaces : Interfaces) (first later : List Invocation) (sys : System) :
    runSession interfaces (first ++ later) sys =
      runSession interfaces later (runSession interfaces first sys) := List.foldl_append

theorem sessionCalls_append (interfaces : Interfaces) (first later : List Invocation) (sys : System) :
    sessionCalls interfaces (first ++ later) sys =
      sessionCalls interfaces first sys ++ sessionCalls interfaces later (runSession interfaces first sys) := by
  induction first generalizing sys with
  | nil => rfl
  | cons inv rest ih =>
    rw [List.cons_append, sessionCalls, sessionCalls, ih, List.append_assoc]
    rfl

/-- What the calls of a session preserve, the session preserves. -/
theorem session_invariant (interfaces : Interfaces) {p : (Str → Option LifStateRecord) → List (Event Str) → Prop}
    {session : List Invocation} (sys : System) (sound : sys.saved.Sound)
    (plain : ∀ inv ∈ session, inv.Plain)
    (start : p (lifDictFind sys.saved.records) sys.trace)
    (step : ∀ call ∈ sessionCalls interfaces session sys, call.Made interfaces →
      p call.before.records call.before.trace → p call.after.records call.after.trace) :
    (runSession interfaces session sys).saved.Sound ∧
      p (lifDictFind (runSession interfaces session sys).saved.records)
        (runSession interfaces session sys).trace := by
  induction session generalizing sys with
  | nil => exact ⟨sound, start⟩
  | cons inv rest ih =>
    obtain ⟨head, tail⟩ := List.forall_mem_cons.mp plain
    unfold sessionCalls at step
    have later : ∀ call ∈ sessionCalls interfaces rest (runInvocation interfaces sys inv),
        call.Made interfaces → p call.before.records call.before.trace →
          p call.after.records call.after.trace :=
      fun call member => step call (List.mem_append_right _ member)
    suffices next : (runInvocation interfaces sys inv).saved.Sound ∧
        p (lifDictFind (runInvocation interfaces sys inv).saved.records)
          (runInvocation interfaces sys inv).trace from ih _ next.1 tail next.2 later
    unfold runInvocation ifupdownMain updateStateFileAndExit
    split
    · exact ⟨sound, start⟩
    by_cases mock : inv.opts.mock = true
    · simp only [mock, if_true]
      exact ⟨sound, start⟩
    · simp only [mock, if_false, Bool.false_eq_true]
      rw [if_neg mock] at step
      rcases result : changeInterfaces inv.env inv.opts inv.command (sys.load interfaces) with ⟨rc, w⟩
      obtain ⟨linked, ready, calls⟩ := commandCalls_linked head.1 (load_ready sound interfaces) head.2 result
      refine ⟨ready_sound ready, ?_⟩
      rw [show lifDictFind w.state.records = w.records from funext ready.synced]
      refine linked_invariant (p := fun w => p w.records w.trace) linked ?_ ?_
      · rw [load_records sound]
        exact start
      · intro call member
        exact step call (List.mem_append_left _ member) (calls call member).1

theorem changed_extends {w w' : World} (h : Changed opts iface up w ok w') : ∃ ev, w'.trace = w.trace ++ ev := by
  cases h with
  | untouched | marked => exact ⟨[], (List.append_nil _).symm⟩
  | up _ _ run | upMarked _ _ run | down _ _ run =>
    obtain ⟨ev, -, evolves⟩ := run
    exact ⟨ev, evolves.trace⟩

theorem session_extends (interfaces : Interfaces) {session : List Invocation} {sys : System} (sound : sys.saved.Sound)
    (plain : ∀ inv ∈ session, inv.Plain) :
    ∃ ev, (runSession interfaces session sys).trace = sys.trace ++ ev := by
  refine (session_invariant interfaces sys (p := fun _ trace => ∃ ev, trace = sys.trace ++ ev) sound plain
    ⟨[], (List.append_nil _).symm⟩ ?_).2
  rintro call _ made ⟨ev, before⟩
  obtain ⟨ev', after⟩ := changed_extends made.changed
  exact ⟨ev ++ ev', by rw [after, before, List.append_assoc]⟩

/-- Every call of a session starts from memory that agrees with the state. -/
theorem sessionCalls_made {session : List Invocation} {sys : System} (sound : sys.saved.Sound)
    (plain : ∀ inv ∈ session, inv.Plain) :
    ∀ call ∈ sessionCalls interfaces session sys, call.Made interfaces := by
  induction session generalizing sys with
  | nil => simp [sessionCalls]
  | cons inv rest ih =>
    obtain ⟨head, tail⟩ := List.forall_mem_cons.mp plain
    intro call member
    unfold sessionCalls at member
    rcases List.mem_append.mp member with now | later
    · split at now
      · cases now
      · rcases result : changeInterfaces inv.env inv.opts inv.command (sys.load interfaces) with ⟨rc, w⟩
        obtain ⟨-, -, calls⟩ := commandCalls_linked head.1 (load_ready sound interfaces) head.2 result
        exact (calls call now).1
    · have alone : ∀ other ∈ [inv], other.Plain := List.forall_mem_singleton.mpr head
      have next := session_invariant interfaces sys (p := fun _ _ => True) sound alone trivial
        (fun _ _ _ _ => trivial)
      exact ih next.1 tail call later

end Ifupdown
