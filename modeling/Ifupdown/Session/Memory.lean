import Ifupdown.Resolver.Termination
import Ifupdown.Resolver.BringUp
import Ifupdown.Resolver.TearDown

/-! The memory of a process between two changes of an interface, and the state file that it
is read from and written to. -/
namespace Ifupdown

/-- A state as commands without aliases leave it: every name is its own interface. -/
structure StateDict.Sound (state : StateDict) : Prop where
  mapped : ∀ entry ∈ state.records, entry.2.mappedIf = entry.1
  counted : ∀ entry ∈ state.records, 0 < entry.2.refcount
  short : ∀ entry ∈ state.records, entry.1.length < 4096

theorem sound_empty : StateDict.empty.Sound := by
  constructor <;> simp [StateDict.empty]

def World.records (w : World) (x : Str) : Option LifStateRecord := (w.collection.iface x).record

/-- What the interfaces file says about an interface. -/
def LifInterface.stanza (interface : LifInterface) : LifInterface :=
  { interface.config with isExplicit := false }

/-- The memory between two calls of `change_interface`. -/
structure World.Ready (interfaces : Interfaces) (w : World) : Prop where
  pending : w.Pending []
  synced : w.Synced
  stanza : ∀ x, (w.collection.iface x).stanza = (interfaces.collection.iface x).stanza
  short : ∀ x, 0 < w.count x → x.length < 4096

section
variable {a b : Collection} (same : ∀ x, (a.iface x).stanza = (b.iface x).stanza) (x : Str)
include same

theorem stanza_requireIfs : requireIfs (a.iface x) = requireIfs (b.iface x) :=
  show requireIfs (a.iface x).stanza = _ by rw [same x]; rfl

theorem stanza_hasConfigError : (a.iface x).hasConfigError = (b.iface x).hasConfigError :=
  show (a.iface x).stanza.hasConfigError = _ by rw [same x]; rfl

theorem stanza_isTemplate : (a.iface x).isTemplate = (b.iface x).isTemplate :=
  show (a.iface x).stanza.isTemplate = _ by rw [same x]; rfl

theorem stanza_isAuto : (a.iface x).isAuto = (b.iface x).isAuto :=
  show (a.iface x).stanza.isAuto = _ by rw [same x]; rfl

omit x in
theorem stanza_req (opts : LifExecuteOpts) : (a.graph opts).req = (b.graph opts).req := by
  have usable : a.usable opts = b.usable opts := by
    funext d
    rw [Collection.usable, Collection.usable, stanza_hasConfigError same]
  funext i
  simp only [Collection.graph, stanza_requireIfs same, usable]

end

theorem interfaces_idle (interfaces : Interfaces) (x : Str) :
    (interfaces.collection.iface x).refcount = 0 ∧ (interfaces.collection.iface x).isPending = false := by
  unfold Collection.iface
  cases found : lifDictFind interfaces.collection.entries x with
  | none =>
    rw [Option.getD_none]
    unfold lifInterfaceInit
    split <;> exact ⟨rfl, rfl⟩
  | some interface => exact interfaces.idle _ (lifDictFind_mem found)

/-- Reading a state file changes only counts and explicit flags. -/
theorem sync_stanza (records : LifDict LifStateRecord) (collection : Collection) (x : Str) :
    let loaded := records.foldl (fun collection entry => syncRecord collection entry.2) collection
    (loaded.iface x).stanza = (collection.iface x).stanza ∧
      (loaded.iface x).isPending = (collection.iface x).isPending := by
  induction records generalizing collection with
  | nil => exact ⟨rfl, rfl⟩
  | cons entry rest ih =>
    obtain ⟨stanza, pending⟩ := ih (syncRecord collection entry.2)
    have kept : ((syncRecord collection entry.2).iface x).stanza = (collection.iface x).stanza ∧
        ((syncRecord collection entry.2).iface x).isPending = (collection.iface x).isPending := by
      rw [syncRecord, iface_write]
      split <;> exact ⟨rfl, rfl⟩
    exact ⟨stanza.trans kept.1, pending.trans kept.2⟩

theorem load_stanza (sys : System) (interfaces : Interfaces) (x : Str) :
    ((sys.load interfaces).collection.iface x).stanza = (interfaces.collection.iface x).stanza :=
  (sync_stanza sys.saved.records interfaces.collection x).1

theorem load_pending (sys : System) (interfaces : Interfaces) : (sys.load interfaces).Pending [] := by
  intro x
  rw [System.load, lifStateSync, (sync_stanza sys.saved.records interfaces.collection x).2]
  exact (interfaces_idle interfaces x).2

theorem load_iface {sys : System} (sound : sys.saved.Sound) (interfaces : Interfaces) (x : Str) :
    (sys.load interfaces).collection.iface x =
      match lifDictFind sys.saved.records x with
      | some rec => { interfaces.collection.iface x with
          refcount := rec.refcount, isExplicit := rec.isExplicit }
      | none => interfaces.collection.iface x := iface_sync sound.mapped

theorem load_records {sys : System} (sound : sys.saved.Sound) (interfaces : Interfaces) :
    (sys.load interfaces).records = lifDictFind sys.saved.records := by
  funext x
  rw [World.records, load_iface sound]
  cases found : lifDictFind sys.saved.records x with
  | none => simp [LifInterface.record, (interfaces_idle interfaces x).1]
  | some rec =>
    have member := lifDictFind_mem found
    have positive : rec.refcount ≠ 0 := (sound.counted _ member).ne'
    have own : rec.mappedIf = x := sound.mapped _ member
    simp [LifInterface.record, positive, ← own]

theorem load_ready {sys : System} (sound : sys.saved.Sound) (interfaces : Interfaces) :
    (sys.load interfaces).Ready interfaces where
  pending := load_pending sys interfaces
  synced x := (congrFun (load_records sound interfaces) x).symm
  stanza := load_stanza sys interfaces
  short x counted := by
    rw [World.count, load_iface sound] at counted
    cases found : lifDictFind sys.saved.records x with
    | none =>
      rw [found] at counted
      simp [(interfaces_idle interfaces x).1] at counted
    | some rec => exact sound.short _ (lifDictFind_mem found)

theorem ready_sound {w : World} (ready : w.Ready interfaces) : w.state.Sound := by
  have recorded : ∀ entry ∈ w.state.records, (w.collection.iface entry.1).record = some entry.2 := by
    intro entry member
    rw [← ready.synced, lifDictFind_of_mem w.state.distinct member]
  refine ⟨fun entry member => ?_, fun entry member => ?_, fun entry member => ready.short _ ?_⟩
  all_goals
    have record := recorded entry member
    unfold LifInterface.record at record
    split at record
    · cases record
  · rw [← Option.some.inj record]
    simp
  · rw [← Option.some.inj record]
    dsimp only
    omega
  · rw [World.count]
    omega

theorem evolves_ready {w w' : World} (ready : w.Ready interfaces) (evolves : Evolves True [] w w' ev)
    (short : ∀ x, 0 < w'.count x → x.length < 4096) : w'.Ready interfaces where
  pending := evolves.pending
  synced := evolves.synced trivial ready.synced
  stanza x := by
    rw [← ready.stanza x, LifInterface.stanza, evolves.config x]
    rfl
  short := short

theorem lifTokens_length {buf token : Str} (member : token ∈ lifTokens buf) :
    token.length ≤ buf.length := by
  have general : ∀ fuel (buf : Str), token ∈ tokenLoop fuel buf → token.length ≤ buf.length := by
    intro fuel
    induction fuel with
    | zero => intro buf member; cases member
    | succ fuel ih =>
      intro buf member
      simp only [tokenLoop] at member
      split at member
      · cases member
      rename_i nonempty
      rcases List.mem_cons.mp member with rfl | later
      · exact (List.takeWhile_prefix _).length_le.trans (List.dropWhile_suffix _).length_le
      · exact (ih _ later).trans (lifNextToken_shorter nonempty).le
  exact general _ _ member

theorem requireIfs_short {interface : LifInterface} {d : Str} (member : d ∈ requireIfs interface) :
    d.length < 4096 := by
  unfold requireIfs at member
  split at member
  · cases member
  · have short := lifTokens_length member
    rw [strlcpy, List.length_take] at short
    omega

theorem follows_up_ready {w w' : World} (ready : w.Ready interfaces) (short : iface.length < 4096)
    (h : Follows Up opts True [] (.run iface iface) w ok w') : w'.Ready interfaces := by
  obtain ⟨ev, run, evolves⟩ := h
  refine evolves_ready ready evolves fun x counted => ?_
  have spread := up_spreads run (b := fun _ => 0) (s := {x | x.length < 4096}) ?_ (fun _ => Nat.zero_le _) ?_
    (by simp [Task.rest]) (fun x positive => Or.inr (ready.short x positive)) counted
  · exact spread.resolve_left (Nat.lt_irrefl 0)
  · intro i _ d edge _
    exact requireIfs_short (List.mem_filter.mp edge).1
  · rintro i ⟨⟩
    exact short

theorem follows_down_ready {w w' : World} (ready : w.Ready interfaces)
    (h : Follows Down opts True [] (.run iface iface) w ok w') : w'.Ready interfaces := by
  obtain ⟨ev, run, evolves⟩ := h
  refine evolves_ready ready evolves fun x counted => ready.short x ?_
  exact Nat.lt_of_lt_of_le counted (down_mono run x)

theorem follows_up_counted {w w' : World} (h : Follows Up opts True [] (.run iface iface) w true w') :
    0 < w'.count iface := by
  obtain ⟨ev, run, -⟩ := h
  have up := (up_run_true run).resolve_left List.not_mem_nil
  have grown := up_counts run rfl iface
  rw [if_pos up] at grown
  omega

theorem records_markExplicit {w : World} (counted : 0 < w.count iface) (x : Str) :
    (w.markExplicit iface iface).records x =
      if iface = x then some ⟨iface, w.count iface, true⟩ else w.records x := by
  have positive : (w.collection.iface iface).refcount ≠ 0 := counted.ne'
  simp only [World.records, World.markExplicit, iface_setExplicit]
  by_cases same : iface = x
  · subst same
    simp [LifInterface.record, positive, World.count]
  · simp [same]

theorem markExplicit_ready {w : World} (ready : w.Ready interfaces) (counted : 0 < w.count iface) :
    (w.markExplicit iface iface).Ready interfaces where
  pending x := by
    have idle := ready.pending x
    simp only [World.markExplicit, iface_setExplicit]
    split <;> exact idle
  synced x := by
    have record := records_markExplicit counted x
    rw [World.records] at record
    rw [record]
    simp only [World.markExplicit, find_upsert, iface_setExplicit, if_true, Collection.iface_ifname]
    split
    · rfl
    · exact ready.synced x
  stanza x := by
    rw [← ready.stanza x]
    simp only [World.markExplicit, iface_setExplicit]
    split <;> rfl
  short x := by
    rw [count_markExplicit]
    exact ready.short x

end Ifupdown
