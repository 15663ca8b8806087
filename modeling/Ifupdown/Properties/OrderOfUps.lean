import Ifupdown.Resolver.Undo
import Ifupdown.Session.Requests
import Ifupdown.Session.Standing
import Ifupdown.Session.Stanzas

/-! Successful `ifup`s in any order. -/
namespace Ifupdown

open Successors

variable {interfaces : Interfaces} {env : Env} {opts : LifExecuteOpts} {cmd : Command} {args names : List Str}
  {w w' : World} {x y : Str} {mark : Bool} {asked asked' : Bool → Str → Prop} {matchOpts : MatchOptions}

/-- What the processes of a session, dry runs apart, are about: automatically, or by name. -/
def Asked (interfaces : Interfaces) (session : List Invocation) (auto : Bool) (x : Str) : Prop :=
  ∃ inv ∈ session, inv.opts.mock = false ∧ inv.command.matchOpts.isAuto = auto ∧ inv.command.Targets interfaces x

/-- What has been asked for is up, with what it requires, and nothing else. -/
structure World.Answers (interfaces : Interfaces) (asked : Bool → Str → Prop) (w : World) : Prop where
  tallied : Tallied interfaces.requires (configured ∅ w.trace) w.records
  below : ∀ x ∈ configured ∅ w.trace, ∃ auto n, asked auto n ∧ Relation.ReflTransGen (Edge interfaces.requires) n x
  counted : ∀ auto x, asked auto x → 0 < w.count x
  explicit : ∀ x, (w.collection.iface x).isExplicit = true ↔
    (interfaces.collection.iface x).isExplicit = true ∨ asked false x

theorem World.Answers.congr (answers : w.Answers interfaces asked) (same : ∀ auto x, asked auto x ↔ asked' auto x) :
    w.Answers interfaces asked' := by
  obtain rfl : asked = asked' := funext fun auto => funext fun x => propext (same auto x)
  exact answers

theorem closed_walk {α : Type} [DecidableEq α] {req : α → List α} {conf : Finset α} {a b : α} (closed : Closed req conf)
    (member : a ∈ conf) (walk : Relation.ReflTransGen (Edge req) a b) : b ∈ conf := by
  induction walk with
  | refl => exact member
  | tail _ edge ih => exact closed _ ih _ edge

/-- The configured interfaces are those that can be reached from what has been asked for. -/
theorem World.Answers.configured_iff (answers : w.Answers interfaces asked) (x : Str) :
    x ∈ configured ∅ w.trace ↔
      ∃ auto n, asked auto n ∧ Relation.ReflTransGen (Edge interfaces.requires) n x := by
  refine ⟨answers.below x, fun ⟨auto, n, called, walk⟩ => ?_⟩
  have exact := tallied_exact answers.tallied
  have closed := answers.tallied.2
  exact closed_walk closed (exact_counted exact closed trivial (answers.counted auto n called)) walk

theorem changed_events (changed : Changed opts x true w true w') :
    ∃ ev, w'.trace = w.trace ++ ev ∧ failures ev = [] ∧
      (∀ conf, configured conf ev = conf ∪ ups ev) ∧
      ∀ j ∈ ups ev, Relation.ReflTransGen (Edge (w.collection.graph opts).req) x j := by
  have still : ∃ ev : List (Event Str), w.trace = w.trace ++ ev ∧ failures ev = [] ∧
      (∀ conf, configured conf ev = conf ∪ ups ev) ∧
      ∀ j ∈ ups ev, Relation.ReflTransGen (Edge (w.collection.graph opts).req) x j :=
    ⟨[], by simp, rfl, by simp [configured], by simp⟩
  cases changed with
  | untouched | marked => exact still
  | up _ _ run | upMarked _ _ run =>
    obtain ⟨ev, run, evolves⟩ := run
    refine ⟨ev, evolves.trace, up_success_failures run rfl, up_configured run, fun j member => ?_⟩
    exact Relation.reflTransGen_iff_eq_or_transGen.mpr (up_below run member)

theorem changed_mono (changed : Changed opts x true w ok w') (y : Str) : w.count y ≤ w'.count y := by
  cases changed with
  | untouched => exact Nat.le_refl _
  | marked => rw [count_markExplicit]
  | up _ _ run =>
    obtain ⟨ev, run, -⟩ := run
    exact up_mono run y
  | upMarked _ _ run =>
    obtain ⟨ev, run, -⟩ := run
    rw [count_markExplicit]
    exact up_mono run y

theorem changeInterface_explicit (pending : w.Pending []) (h : changeInterface env opts w x x true mark = (ok, w')) :
    ((w.collection.iface y).isExplicit = true → (w'.collection.iface y).isExplicit = true) ∧
      ((w'.collection.iface y).isExplicit = true →
        (w.collection.iface y).isExplicit = true ∨ mark = true ∧ x = y) := by
  have cases := request_cases ⟨env, opts, x, x, true, mark, w⟩ pending
  have result : w' = (Request.result ⟨env, opts, x, x, true, mark, w⟩).2 := (congrArg Prod.snd h).symm
  rcases cases with ⟨-, -, same⟩ | ⟨marks, same⟩ | ⟨-, done, w₁, same, run⟩
  · obtain rfl : w' = w := result.trans same
    exact ⟨id, Or.inl⟩
  · obtain rfl : w' = w.markExplicit x x := result.trans same
    obtain rfl : mark = true := marks.2.2.2.2
    rw [markExplicit_explicit, Bool.or_eq_true, decide_eq_true_iff]
    exact ⟨Or.inr, fun either => either.symm.imp id fun own => ⟨rfl, own⟩⟩
  · have follows : (w₁.collection.iface y).isExplicit = (w.collection.iface y).isExplicit := by
      obtain ⟨ev, run, evolves⟩ := lifLifecycleRun_up pending run
      show (w₁.collection.iface y).config.isExplicit = _
      rw [evolves.config y]
      rfl
    rw [result, same]
    dsimp only
    split
    · rename_i marked
      simp only [Bool.and_eq_true] at marked
      rw [markExplicit_explicit, Bool.or_eq_true, decide_eq_true_iff, follows]
      exact ⟨Or.inr, fun either => either.symm.imp id fun own => ⟨marked.2, own⟩⟩
    · rw [follows]
      exact ⟨id, Or.inl⟩

/-- A successful call brings up one more interface, and what it requires. -/
theorem call_answers (sane : interfaces.Sane) (plain : opts.force = false) (ready : w.Ready interfaces)
    (short : x.length < 4096) (answers : w.Answers interfaces asked)
    (h : changeInterface env opts w x x true mark = (true, w')) :
    w'.Answers interfaces fun auto n => asked auto n ∨ auto = !mark ∧ n = x := by
  have changed := changeInterface_changed plain ready.pending h
  have ready' := changed_ready changed ready short
  obtain ⟨-, up⟩ := changeInterface_stands plain ready.pending h
  have usable : ¬ (w'.collection.iface x).hasConfigError = true := by
    rw [stanza_hasConfigError ready'.stanza, (sane x).2]
    exact Bool.false_ne_true
  obtain ⟨counted, marked⟩ := up.resolve_left usable
  obtain ⟨ev, trace, quiet, grown, reached⟩ := changed_events changed
  rw [stanza_requires plain ready.stanza] at reached
  let call : Call := ⟨opts, x, true, w, true, w'⟩
  have made : call.Made interfaces := ⟨plain, ready, short, changed⟩
  have calm : call.Calm := ⟨by rw [events_eq trace, quiet], Or.inl rfl⟩
  constructor
  · exact call_tallied made (calm_tidy sane made calm) answers.tallied
  · intro j member
    rw [trace, configured_append, grown, Finset.mem_union] at member
    rcases member with old | new
    · obtain ⟨auto, n, called, walk⟩ := answers.below j old
      exact ⟨auto, n, Or.inl called, walk⟩
    · exact ⟨!mark, x, Or.inr ⟨rfl, rfl⟩, reached j new⟩
  · rintro auto n (before | ⟨-, rfl⟩)
    · exact Nat.lt_of_lt_of_le (answers.counted auto n before) (changed_mono changed n)
    · exact counted
  · intro n
    obtain ⟨kept, only⟩ := changeInterface_explicit (y := n) ready.pending h
    rw [answers.explicit n] at kept only
    constructor
    · intro explicit
      rcases only explicit with (file | before) | ⟨rfl, rfl⟩
      · exact Or.inl file
      · exact Or.inr (Or.inl before)
      · exact Or.inr (Or.inr ⟨rfl, rfl⟩)
    · rintro (file | before | ⟨named, rfl⟩)
      · exact kept (Or.inl file)
      · exact kept (Or.inr before)
      · exact marked (by simpa using named.symm)

theorem named_answers (sane : interfaces.Sane) (force : opts.force = false) (ready : w.Ready interfaces)
    (plain : ∀ arg ∈ args, 61 ∉ arg) (answers : w.Answers interfaces asked)
    (h : changeNamedInterfaces env opts true args w = (true, w')) :
    w'.Answers interfaces fun auto n => asked auto n ∨ auto = false ∧ ∃ arg ∈ args, n = arg.take 4095 := by
  induction args generalizing w asked with
  | nil =>
    cases h
    exact answers.congr fun auto n => by simp
  | cons arg rest ih =>
    obtain ⟨head, tail⟩ := List.forall_mem_cons.mp plain
    unfold changeNamedInterfaces at h
    cases resolved : resolveArgument w arg with
    | none =>
      rw [resolved] at h
      cases h
    | some iface =>
      obtain ⟨same, short⟩ := resolveArgument_plain ready head resolved
      have cut : iface = arg.take 4095 := by rw [same, splitAlias_plain head]
      rw [resolved] at h
      dsimp only at h
      rw [← same] at h
      rcases result : changeInterface env opts w iface iface true true with ⟨_ | _, after⟩
      · rw [result] at h
        cases h
      · rw [result] at h
        have next := changed_ready (changeInterface_changed force ready.pending result) ready short
        refine (ih next tail (call_answers sane force ready short answers result) h).congr fun auto n => ?_
        rw [cut, Bool.not_true, or_assoc, ← and_or_left]
        simp only [List.exists_mem_cons_iff]

theorem auto_answers (sane : interfaces.Sane) (force : opts.force = false) (ready : w.Ready interfaces)
    (auto : matchOpts.isAuto = true) (answers : w.Answers interfaces asked)
    (h : changeAutoInterfaces env opts matchOpts true names w = (true, w')) :
    w'.Answers interfaces fun by_name n => asked by_name n ∨
      by_name = true ∧ n ∈ names ∧ matchOpts.passesOver (interfaces.collection.iface n) = false := by
  induction names generalizing w asked with
  | nil =>
    cases h
    exact answers.congr fun _ n => by simp
  | cons name rest ih =>
    unfold changeAutoInterfaces at h
    dsimp only at h
    by_cases passed : matchOpts.passesOver (w.collection.iface name) = true
    · rw [if_pos passed] at h
      rw [passesOver_ready ready] at passed
      refine (ih ready answers h).congr fun _ n => or_congr_right (and_congr_right fun _ => ?_)
      rw [List.mem_cons, or_and_right]
      refine (or_iff_right ?_).symm
      rintro ⟨rfl, taken⟩
      rw [passed] at taken
      cases taken
    · rw [if_neg passed, Collection.iface_ifname] at h
      have short := auto_name_short ready auto passed
      rw [passesOver_ready ready, Bool.not_eq_true] at passed
      rcases result : changeInterface env opts w name name true false with ⟨ok, after⟩
      rw [result] at h
      dsimp only at h
      rcases tail : changeAutoInterfaces env opts matchOpts true rest after with ⟨ret, last⟩
      rw [tail] at h
      obtain ⟨both, rfl⟩ := Prod.mk.inj h
      obtain ⟨rfl, rfl⟩ : ok = true ∧ ret = true := by simpa using both
      have next := changed_ready (changeInterface_changed force ready.pending result) ready short
      refine (ih next (call_answers sane force ready short answers result) tail).congr fun _ n => ?_
      rw [Bool.not_false, or_assoc, ← and_or_left, List.mem_cons, or_and_right]
      refine or_congr_right (and_congr_right fun _ => or_congr_left ?_)
      exact ⟨fun same => ⟨same, same ▸ passed⟩, And.left⟩

theorem command_answers (sane : interfaces.Sane) (force : opts.force = false) (ready : w.Ready interfaces)
    (plain : cmd.Plain) (up : cmd.up = true) (answers : w.Answers interfaces asked)
    (h : changeInterfaces env opts cmd w = (true, w')) :
    w'.Answers interfaces fun auto n => asked auto n ∨ cmd.matchOpts.isAuto = auto ∧ cmd.Targets interfaces n := by
  unfold changeInterfaces at h
  rw [up] at h
  unfold Command.Targets
  cases auto : cmd.matchOpts.isAuto with
  | true =>
    rw [auto, if_pos rfl] at h
    simp only [if_true]
    refine (auto_answers sane force ready auto answers h).congr fun _ n => or_congr_right (and_congr eq_comm ?_)
    exact ⟨And.right, fun taken => ⟨auto_listed ready auto taken, taken⟩⟩
  | false =>
    rw [auto, if_neg Bool.false_ne_true] at h
    simp only [Bool.false_eq_true, if_false]
    exact (named_answers sane force ready plain answers h).congr fun _ n =>
      or_congr_right (and_congr_left fun _ => eq_comm)

theorem World.Answers.reloaded (answers : w.Answers interfaces asked) (ready : w.Ready interfaces) :
    (w.save.load interfaces).Answers interfaces asked where
  tallied := by
    rw [reload_records ready]
    exact answers.tallied
  below := answers.below
  counted auto x called := by
    rw [reload_count ready]
    exact answers.counted auto x called
  explicit x := by
    rw [reload_explicit ready, answers.explicit x]
    intro zero
    rw [Bool.eq_iff_iff, answers.explicit x]
    refine or_iff_left fun called => ?_
    have counted := answers.counted false x called
    omega

/-- A session of successful `ifup`s brings up what it asks for. -/
theorem session_answers {session : List Invocation} {sys : System} (sane : interfaces.Sane) (sound : sys.saved.Sound)
    (ups : ∀ inv ∈ session, inv.Plain ∧ inv.command.up = true) (success : Succeeds interfaces session sys)
    (answers : (sys.load interfaces).Answers interfaces asked) :
    (runSession interfaces session sys).saved.Sound ∧
      ((runSession interfaces session sys).load interfaces).Answers interfaces fun auto n =>
        asked auto n ∨ Asked interfaces session auto n := by
  induction session generalizing sys asked with
  | nil => exact ⟨sound, answers.congr fun auto n => by simp [Asked]⟩
  | cons inv rest ih =>
    obtain ⟨⟨plain, up⟩, tail⟩ := List.forall_mem_cons.mp ups
    obtain ⟨done, later⟩ := success
    suffices next : (runInvocation interfaces sys inv).saved.Sound ∧
        ((runInvocation interfaces sys inv).load interfaces).Answers interfaces fun auto n => asked auto n ∨
          inv.opts.mock = false ∧ inv.command.matchOpts.isAuto = auto ∧ inv.command.Targets interfaces n by
      obtain ⟨sound', answers'⟩ := ih next.1 tail later next.2
      refine ⟨sound', answers'.congr fun auto n => ?_⟩
      rw [or_assoc, Asked, Asked, List.exists_mem_cons_iff]
    unfold runInvocation ifupdownMain updateStateFileAndExit
    unfold ifupdownMain updateStateFileAndExit at done
    split
    · rename_i usage
      rw [if_pos usage] at done
      cases done
    · rename_i used
      rw [if_neg used] at done
      rcases result : changeInterfaces inv.env inv.opts inv.command (sys.load interfaces) with ⟨rc, w⟩
      rw [result] at done
      obtain rfl : rc = true := done
      cases mock : inv.opts.mock with
      | true => exact ⟨sound, answers.congr fun auto n => by simp⟩
      | false =>
        have ready := load_ready sound interfaces
        obtain ⟨-, last, -⟩ := commandCalls_linked plain.1 ready plain.2 result
        refine ⟨ready_sound last, ?_⟩
        exact ((command_answers sane plain.1 ready plain.2 up answers result).reloaded last).congr fun auto n => by simp

theorem fresh_answers (interfaces : Interfaces) :
    (freshSystem.load interfaces).Answers interfaces fun _ _ => False where
  tallied := by
    rw [load_records sound_empty]
    exact freshSystem_tallied _
  below := by simp [freshSystem, System.load, configured]
  counted _ _ := False.elim
  explicit x := by
    rw [load_explicit sound_empty, or_false]
    rw [load_count sound_empty]
    rfl

theorem answers_records (answers : w.Answers interfaces asked) (answers' : w'.Answers interfaces asked) :
    w.records = w'.records ∧ configured ∅ w.trace = configured ∅ w'.trace := by
  have same : configured ∅ w.trace = configured ∅ w'.trace :=
    Finset.ext fun x => (answers.configured_iff x).trans (answers'.configured_iff x).symm
  refine ⟨funext fun x => ?_, same⟩
  have count : (w.collection.iface x).refcount = (w'.collection.iface x).refcount := by
    have one := tallied_exact answers.tallied x trivial
    have two := tallied_exact answers'.tallied x trivial
    rw [same] at one
    exact one.trans two.symm
  have explicit : (w.collection.iface x).isExplicit = (w'.collection.iface x).isExplicit := by
    rw [Bool.eq_iff_iff, answers.explicit x, answers'.explicit x]
  simp only [World.records, LifInterface.record, Collection.iface_ifname, count, explicit]

/-- What successful `ifup`s leave, from the first one after a boot on, depends only on which interfaces
they ask for: neither on the order, nor on how the names are spread over commands, nor on repetitions. -/
theorem ifup_order (interfaces : Interfaces) {first second : List Invocation} (sane : interfaces.Sane)
    (ups : ∀ inv ∈ first ++ second, inv.Plain ∧ inv.command.up = true)
    (succeeds : Succeeds interfaces first freshSystem) (succeeds' : Succeeds interfaces second freshSystem)
    (same : ∀ auto x, Asked interfaces first auto x ↔ Asked interfaces second auto x) :
    let sys := runSession interfaces first freshSystem
    let sys' := runSession interfaces second freshSystem
    lifDictFind sys.saved.records = lifDictFind sys'.saved.records ∧
      configured ∅ sys.trace = configured ∅ sys'.trace ∧
      ∀ x, x ∈ configured ∅ sys.trace ↔ ∃ auto n, Asked interfaces first auto n ∧
        Relation.ReflTransGen (fun i d => d ∈ requireIfs (interfaces.collection.iface i)) n x := by
  obtain ⟨ups₁, ups₂⟩ := List.forall_mem_append.mp ups
  obtain ⟨sound₁, answers₁⟩ := session_answers sane sound_empty ups₁ succeeds (fresh_answers interfaces)
  obtain ⟨sound₂, answers₂⟩ := session_answers sane sound_empty ups₂ succeeds' (fresh_answers interfaces)
  have answers₁ := answers₁.congr fun auto n => iff_of_eq (false_or _)
  have answers₂ := answers₂.congr fun auto n => (iff_of_eq (false_or _)).trans (same auto n).symm
  obtain ⟨records, trace⟩ := answers_records answers₁ answers₂
  rw [load_records sound₁, load_records sound₂] at records
  refine ⟨records, trace, fun x => ?_⟩
  have edges : Edge interfaces.requires = fun i d => d ∈ requireIfs (interfaces.collection.iface i) := by
    funext i d
    rw [Edge, sane_requires sane]
  have reached := answers₁.configured_iff x
  rw [edges] at reached
  exact reached

theorem ifup_order_tunnels :
    let sys := runSession fork [ifup ["tun0"], ifup ["tun1", "eth0"]] freshSystem
    let sys' := runSession fork [ifup ["eth0", "tun1"], ifup ["tun0", "tun1"]] freshSystem
    lifDictFind sys.saved.records = lifDictFind sys'.saved.records ∧
      configured ∅ sys.trace = configured ∅ sys'.trace ∧
      ∀ x, x ∈ configured ∅ sys.trace ↔ ∃ auto n, Asked fork [ifup ["tun0"], ifup ["tun1", "eth0"]] auto n ∧
        Relation.ReflTransGen (fun i d => d ∈ requireIfs (fork.collection.iface i)) n x :=
  ifup_order fork interfacesFile_sane (by decide) (by decide) (by decide) fun auto x => by
    cases auto <;> simp [Asked, ifup, Command.Targets]
    tauto

end Ifupdown
