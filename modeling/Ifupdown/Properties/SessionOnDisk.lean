import Ifupdown.Model.Launches
import Ifupdown.Properties.LoadedInterfaces
import Ifupdown.Properties.StateRoundTrip
import Ifupdown.Session.Standing

/-! What processes do by way of their files is what they do with the contents. -/
namespace Ifupdown

section
variable {interfaces : Interfaces} {opts : LifExecuteOpts} {env : Env} {w : World} {cmd : Command}

theorem namedCalls_targets {up : Bool} {args : List Str} (force : opts.force = false) (ready : w.Ready interfaces)
    (plain : ∀ arg ∈ args, 61 ∉ arg) : ∀ call ∈ namedCalls env opts up args w, ∃ arg ∈ args, call.iface = arg.take 4095 := by
  induction args generalizing w with
  | nil => simp [namedCalls]
  | cons arg rest ih =>
    obtain ⟨head, tail⟩ := List.forall_mem_cons.mp plain
    unfold namedCalls
    cases resolved : resolveArgument w arg with
    | none => simp
    | some iface =>
      obtain ⟨same, short⟩ := resolveArgument_plain ready head resolved
      dsimp only
      rw [← same]
      rcases result : changeInterface env opts w iface iface up true with ⟨ok, after⟩
      have next := changed_ready (changeInterface_changed force ready.pending result) ready short
      rintro call (- | ⟨-, later⟩)
      · exact ⟨arg, List.mem_cons_self, by rw [same, splitAlias_plain head]⟩
      · dsimp only at later
        split at later
        · obtain ⟨other, member, named⟩ := ih next tail call later
          exact ⟨other, List.mem_cons_of_mem _ member, named⟩
        · cases later

theorem autoCalls_targets {matchOpts : MatchOptions} {up : Bool} {names : List Str} (force : opts.force = false)
    (ready : w.Ready interfaces) (auto : matchOpts.isAuto = true) :
    ∀ call ∈ autoCalls env opts matchOpts up names w, matchOpts.passesOver (interfaces.collection.iface call.iface) = false := by
  induction names generalizing w with
  | nil => simp [autoCalls]
  | cons name rest ih =>
    unfold autoCalls
    dsimp only
    by_cases passed : matchOpts.passesOver (w.collection.iface name) = true
    · rw [if_pos passed]
      exact ih ready
    · rw [if_neg passed, Collection.iface_ifname]
      rcases result : changeInterface env opts w name name up false with ⟨ok, after⟩
      have next := changed_ready (changeInterface_changed force ready.pending result) ready (auto_name_short ready auto passed)
      rintro call (- | ⟨-, later⟩)
      · rw [← passesOver_ready ready]
        exact Bool.eq_false_of_not_eq_true passed
      · exact ih next call later

theorem commandCalls_targets (force : opts.force = false) (ready : w.Ready interfaces) (plain : cmd.Plain) :
    ∀ call ∈ commandCalls env opts cmd w, cmd.Targets interfaces call.iface := by
  intro call member
  unfold commandCalls at member
  unfold Command.Targets
  split at member
  · rename_i auto
    rw [if_pos auto]
    exact autoCalls_targets force ready auto call member
  · rename_i named
    rw [if_neg named]
    exact namedCalls_targets force ready plain call member

end

section
variable {interfaces : Interfaces} {kind : Str → Prop}

def World.Uses (kind : Str → Prop) (w : World) : Prop := ∀ x, 0 < w.count x → kind x

theorem changed_uses {opts : LifExecuteOpts} {iface : Str} {up ok : Bool} {w w' : World} (changed : Changed opts iface up w ok w')
    (ready : w.Ready interfaces) (word : kind iface) (requires : ∀ x, ∀ d ∈ requireIfs (interfaces.collection.iface x), kind d)
    (uses : w.Uses kind) : w'.Uses kind := by
  have rise {w' : World} {ok : Bool} (run : Follows Up opts True [] (.run iface iface) w ok w') : w'.Uses kind := by
    obtain ⟨ev, run, -⟩ := run
    intro x counted
    have spread := up_spreads run (b := fun _ => 0) (s := {x | kind x}) ?_ (fun _ => Nat.zero_le _) ?_
      (by simp [Task.rest]) (fun x positive => Or.inr (uses x positive)) counted
    · exact spread.resolve_left (Nat.lt_irrefl 0)
    · intro i _ d edge _
      have named := (List.mem_filter.mp edge).1
      rw [stanza_requireIfs ready.stanza] at named
      exact requires i d named
    · rintro i ⟨⟩
      exact word
  cases changed with
  | untouched => exact uses
  | marked counted =>
    intro x
    rw [count_markExplicit]
    exact uses x
  | up _ _ run => exact rise run
  | upMarked _ _ run =>
    intro x
    rw [count_markExplicit]
    exact rise run x
  | down _ _ run =>
    obtain ⟨ev, run, -⟩ := run
    exact fun x counted => uses x (Nat.lt_of_lt_of_le counted (down_mono run x))

end

structure Storable (name : Str) : Prop where
  solid : Solid name
  plain : 35 ∉ name ∧ 61 ∉ name
  short : name.length ≤ 2000

instance (name : Str) : Decidable (Storable name) :=
  decidable_of_iff (Solid name ∧ (35 ∉ name ∧ 61 ∉ name) ∧ name.length ≤ 2000)
    ⟨fun ⟨solid, plain, short⟩ => ⟨solid, plain, short⟩, fun ⟨solid, plain, short⟩ => ⟨solid, plain, short⟩⟩

theorem Storable.writable {name : Str} {rec : LifStateRecord} (storable : Storable name) (mapped : rec.mappedIf = name)
    (counted : 1 ≤ rec.refcount ∧ rec.refcount ≤ 2 ^ 64 - 2) : Writable name rec := by
  obtain ⟨solid, plain, short⟩ := storable
  refine ⟨⟨solid, plain⟩, ⟨mapped ▸ solid, mapped ▸ plain.1⟩, counted, ?_⟩
  have count : (decimal rec.refcount).length ≤ 20 := decimal_length (by omega) (by decide)
  have flag : (if rec.isExplicit then str " explicit" else []).length ≤ 9 := by split <;> decide
  simp only [recordLine, List.length_append, List.length_cons, mapped]
  omega

structure Disk.Holds (disk : Disk) (sys : System) : Prop where
  reads : ∀ linebuf, lifStateReadPath linebuf disk.stateFile = sys.saved
  executed : disk.executed = sys.executed
  trace : disk.trace = sys.trace

def Launch.inv (launch : Launch) : Invocation := ⟨launch.env, launch.opts, launch.command⟩

def Launch.Loads (launch : Launch) (collection : Collection) : Prop :=
  ∃ s, launch.load = some (.ok s) ∧ s.collection = collection

def sessionExits (interfaces : Interfaces) : List Invocation → System → List Bool
  | [], _ => []
  | inv :: rest, sys =>
    (ifupdownMain inv.env inv.opts interfaces inv.command sys).1 :: sessionExits interfaces rest (runInvocation interfaces sys inv)

section
variable {interfaces : Interfaces} {launch : Launch} {disk : Disk} {sys : System}

/-- The state is written so that it can be read again. -/
theorem launch_holds (loads : launch.Loads interfaces.collection) (holds : disk.Holds sys)
    (writable : ∀ entry ∈ (runInvocation interfaces sys launch.inv).saved.records, Writable entry.1 entry.2) :
    ∃ disk', launch.main disk = some ((ifupdownMain launch.env launch.opts interfaces launch.command sys).1, disk') ∧
      disk'.Holds (runInvocation interfaces sys launch.inv) := by
  obtain ⟨s, loaded, same⟩ := loads
  obtain ⟨reads, executed, trace⟩ := holds
  revert writable
  unfold Launch.main runInvocation Launch.inv ifupdownMain updateStateFile updateStateFileAndExit System.load
  dsimp only
  rw [loaded, reads, executed, trace]
  dsimp only
  rw [same]
  split
  · exact fun _ => ⟨disk, rfl, reads, executed, trace⟩
  rcases changeInterfaces launch.env launch.opts launch.command _ with ⟨rc, w⟩
  dsimp only
  split
  · exact fun _ => ⟨disk, rfl, reads, executed, trace⟩
  · exact fun writable => ⟨_, rfl, fun linebuf => state_round_trip linebuf w.state writable, rfl, rfl⟩

theorem invocation_storable {inv : Invocation} (sound : sys.saved.Sound) (plain : inv.Plain)
    (targets : ∀ x, inv.command.Targets interfaces x → Storable x)
    (requires : ∀ x, ∀ d ∈ requireIfs (interfaces.collection.iface x), Storable d)
    (start : ∀ name ∈ lifDictKeys sys.saved.records, Storable name) :
    (runInvocation interfaces sys inv).saved.Sound ∧
      ∀ name ∈ lifDictKeys (runInvocation interfaces sys inv).saved.records, Storable name := by
  unfold runInvocation ifupdownMain updateStateFileAndExit
  split
  · exact ⟨sound, start⟩
  rcases result : changeInterfaces inv.env inv.opts inv.command (sys.load interfaces) with ⟨rc, w⟩
  dsimp only
  split
  · exact ⟨sound, start⟩
  have ready := load_ready sound interfaces
  obtain ⟨linked, ready', made⟩ := commandCalls_linked plain.1 ready plain.2 result
  have named : ∀ call ∈ commandCalls inv.env inv.opts inv.command (sys.load interfaces),
      inv.command.Targets interfaces call.iface := commandCalls_targets plain.1 ready plain.2
  have uses : w.Uses Storable := by
    refine linked_invariant linked (fun x counted => start x ?_) fun call member => ?_
    · have record : lifDictFind sys.saved.records x ≠ none := by
        rw [← load_records sound interfaces]
        intro none
        have positive : ((sys.load interfaces).collection.iface x).refcount ≠ 0 := counted.ne'
        simp [World.records, LifInterface.record, positive] at none
      exact Classical.byContradiction fun absent => record (lifDictFind_none.mpr absent)
    · obtain ⟨⟨-, ready, -, changed⟩, -, -⟩ := made call member
      exact changed_uses changed ready (targets _ (named call member)) requires
  refine ⟨ready_sound ready', fun name member => uses name ?_⟩
  obtain ⟨entry, recorded, rfl⟩ := List.mem_map.mp member
  have record : w.records entry.1 = some entry.2 := by
    rw [World.records, ← ready'.synced, lifDictFind_of_mem w.state.distinct recorded]
  exact records_counted record

/-- Each process finds what the one before has left. -/
theorem launches_hold {launches : List Launch} (loads : ∀ launch ∈ launches, launch.Loads interfaces.collection)
    (plain : ∀ launch ∈ launches, launch.inv.Plain)
    (targets : ∀ launch ∈ launches, ∀ x, launch.command.Targets interfaces x → Storable x)
    (requires : ∀ x, ∀ d ∈ requireIfs (interfaces.collection.iface x), Storable d)
    (sound : sys.saved.Sound) (start : ∀ name ∈ lifDictKeys sys.saved.records, Storable name)
    (fits : ∀ before, before <+: launches → ∀ entry ∈ (runSession interfaces (before.map Launch.inv) sys).saved.records,
      entry.2.refcount ≤ 2 ^ 64 - 2)
    (holds : disk.Holds sys) :
    ∃ disk', runLaunches launches disk = some (sessionExits interfaces (launches.map Launch.inv) sys, disk') ∧
      disk'.Holds (runSession interfaces (launches.map Launch.inv) sys) := by
  induction launches generalizing sys disk with
  | nil => exact ⟨disk, rfl, holds⟩
  | cons launch rest ih =>
    obtain ⟨load, loads⟩ := List.forall_mem_cons.mp loads
    obtain ⟨own, plain⟩ := List.forall_mem_cons.mp plain
    obtain ⟨target, targets⟩ := List.forall_mem_cons.mp targets
    obtain ⟨sound', stored⟩ := invocation_storable sound (show launch.inv.Plain from own) target requires start
    have fits' := fits [launch] ⟨rest, rfl⟩
    obtain ⟨next, ran, holds'⟩ := launch_holds load holds fun entry member =>
      (stored entry.1 (List.mem_map_of_mem member)).writable (sound'.mapped entry member)
        ⟨sound'.counted entry member, fits' entry member⟩
    obtain ⟨last, later, done⟩ := ih loads plain targets sound' stored
      (fun before front => fits (launch :: before) (List.cons_prefix_cons.mpr ⟨rfl, front⟩)) holds'
    refine ⟨last, ?_, done⟩
    rw [runLaunches, ran]
    dsimp only
    rw [later]
    rfl

end

/-- Processes that load the same collection, and that start from a state file with its names, do to the system and to the
state file what a session does to the state that the file holds, and they exit as it does: the file can be read whenever it
is read, and it holds what the session has got to. -/
theorem session_on_disk (collection : Collection) (launches : List Launch) (some_ : launches ≠ [])
    (loads : ∀ launch ∈ launches, launch.Loads collection)
    (stack : ∀ launch ∈ launches, ∀ filename, (launch.host.stack filename).length ≤ 4096)
    (plain : ∀ launch ∈ launches, launch.inv.Plain)
    (names : ∀ name ∈ lifDictKeys collection.entries, Storable name)
    (args : ∀ launch ∈ launches, ∀ arg ∈ launch.command.args, Storable arg) :
    ∃ interfaces : Interfaces, interfaces.collection = collection ∧ ∀ (sys : System) (disk : Disk), sys.saved.Sound →
      (∀ name ∈ lifDictKeys sys.saved.records, Storable name) →
      (∀ before, before <+: launches → ∀ entry ∈ (runSession interfaces (before.map Launch.inv) sys).saved.records,
        entry.2.refcount ≤ 2 ^ 64 - 2) →
      disk.Holds sys →
      ∃ disk', runLaunches launches disk = some (sessionExits interfaces (launches.map Launch.inv) sys, disk') ∧
        disk'.Holds (runSession interfaces (launches.map Launch.inv) sys) := by
  obtain ⟨first, later, rfl⟩ := List.exists_cons_of_ne_nil some_
  obtain ⟨s, loaded, rfl⟩ := loads first List.mem_cons_self
  obtain ⟨interfaces, same⟩ := ifparseLoad_interfaces (stack first List.mem_cons_self) loaded
  have closed := ifparseLoad_closed loaded
  refine ⟨interfaces, same, fun sys disk sound start fits holds => ?_⟩
  rw [← same] at names loads closed
  refine launches_hold loads plain ?_ (fun x d member => names d (closed.complete x d member)) sound start fits holds
  intro launch member x target
  unfold Command.Targets at target
  split at target
  · rename_i auto
    exact names x (auto_known auto target)
  · obtain ⟨arg, given, rfl⟩ := target
    have storable := args launch member arg given
    rwa [List.take_of_length_le (by have := storable.short; omega)]

def tunnelFile : Host := oneFile "auto tun0\niface tun0\n  requires eth0\n"

def tunnelLaunch (command : Command) : Launch where
  host := tunnelFile
  depend := quiet
  fuel := 10
  interfacesFile := str "interfaces"
  env := calm
  command := command

def tunnelLaunches : List Launch :=
  [tunnelLaunch { up := true, matchOpts := { isAuto := true } }, tunnelLaunch { up := false, args := [str "tun0"] }]

@[irreducible] def tunnelSurvey : Survey := loadedSurvey (ifparseLoad tunnelFile quiet {} 10 {} (str "interfaces"))

def tunnelInterfaces : Interfaces where
  collection := tunnelSurvey.collection
  idle := by decide +kernel
  short := by decide +kernel
  deduplicated := by decide +kernel

theorem session_on_disk_tunnel : ∃ disk, runLaunches tunnelLaunches { stateFile := none } =
      some (sessionExits tunnelInterfaces (tunnelLaunches.map Launch.inv) freshSystem, disk) ∧
    disk.Holds (runSession tunnelInterfaces (tunnelLaunches.map Launch.inv) freshSystem) := by
  have loaded : ifparseLoad tunnelFile quiet {} 10 {} (str "interfaces") = some (.ok tunnelSurvey) := by
    unfold tunnelSurvey
    exact loadedSurvey_ok (by decide +kernel)
  have loads : ∀ launch ∈ tunnelLaunches, launch.Loads tunnelSurvey.collection := by
    simp [tunnelLaunches, tunnelLaunch, Launch.Loads, Launch.load, loaded]
  have names : ∀ name ∈ lifDictKeys tunnelSurvey.collection.entries, Storable name := by decide +kernel
  have fits : ∀ before ∈ tunnelLaunches.inits,
      ∀ entry ∈ (runSession tunnelInterfaces (before.map Launch.inv) freshSystem).saved.records,
        entry.2.refcount ≤ 2 ^ 64 - 2 := by decide +kernel
  obtain ⟨interfaces, same, run⟩ := session_on_disk tunnelSurvey.collection tunnelLaunches (by simp [tunnelLaunches]) loads
    (by simp [tunnelLaunches, tunnelLaunch, tunnelFile, oneFile]) (by decide) names (by decide)
  obtain rfl : interfaces = tunnelInterfaces := by
    cases interfaces
    subst same
    rfl
  exact run freshSystem { stateFile := none } sound_empty (by simp [freshSystem, StateDict.empty, lifDictKeys])
    (fun before front => fits before ((List.mem_inits before tunnelLaunches).mpr front)) ⟨fun _ => rfl, rfl, rfl⟩

end Ifupdown
