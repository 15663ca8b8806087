import Ifupdown.Parser.OrderlyLines
import Ifupdown.Properties.DependencyGraph
import Ifupdown.Properties.EniOutput

/-! Interfaces whose variables are all their own are read back as they were. -/
namespace Ifupdown

section
variable {host : Host} {start vars : LifDict VarData} {key : Str} {f : VarData → VarData}

theorem write_marks (other : key ≠ str "use") : (lifDictWrite vars key f).map mark = vars.map mark := by
  induction vars with
  | nil => rfl
  | cons entry rest ih =>
    obtain ⟨name, data⟩ := entry
    unfold lifDictWrite
    split
    · rename_i hit
      subst hit
      rw [List.map_cons, List.map_cons, mark_other other, mark_other other]
    · rw [List.map_cons, List.map_cons, ih]

theorem mem_write_other {entry : Str × VarData} (member : entry ∈ vars) (other : entry.1 ≠ key) : entry ∈ lifDictWrite vars key f := by
  induction vars with
  | nil => cases member
  | cons first rest ih =>
    obtain ⟨name, data⟩ := first
    unfold lifDictWrite
    rcases List.mem_cons.mp member with rfl | later
    · rw [if_neg other]
      exact List.mem_cons_self
    · split
      · exact List.mem_cons_of_mem _ later
      · exact List.mem_cons_of_mem _ (ih later)

theorem dictWrite_start (uses : ∀ entry ∈ start, entry.1 = str "use") (other : key ≠ str "use") (first : start <+: vars) :
    start <+: lifDictWrite vars key f := by
  obtain ⟨rest, rfl⟩ := first
  induction start with
  | nil => exact List.nil_prefix
  | cons entry later ih =>
    obtain ⟨own, others⟩ := List.forall_mem_cons.mp uses
    rw [List.cons_append, lifDictWrite, if_neg (by rw [own]; exact Ne.symm other)]
    exact List.cons_prefix_cons.mpr ⟨rfl, ih others⟩

/-- What executors print is put under a key that nothing else depends on. -/
theorem query_selfMade {env : DependEnv} {opts : LifExecuteOpts} {iface : LifInterface} {asked : Nat} {answer : Nat × LifDict VarData}
    (own : SelfMade host start iface.vars) (uses : ∀ entry ∈ start, entry.1 = str "use")
    (query : lifLifecycleQueryDependents env opts asked iface = some answer) : SelfMade host start answer.2 := by
  have other : str "requires" ∉ sharedKeys ∧ str "requires" ≠ str "use" := by decide
  unfold lifLifecycleQueryDependents at query
  dsimp only at query
  split at query
  · cases query
  · cases query
    dsimp only
    split
    · exact own.step (fun entry member shared => mem_write_other member fun same => other.1 (by rwa [← same])) fun first orderly =>
        Or.inr ⟨dictWrite_start uses other.2 first, orderly.congr (write_marks other.2)⟩
    split
    · exact own
    · refine own.add ?_
      rw [mark_other other.2]
      exact supported_plain (show 45 ∉ str "requires" by decide)
        (show str "requires" ∉ [str "address", str "gateway", str "use", str "dhcp-hostname"] by decide)

theorem SelfMade.pimp {data : Option VarData} (own : SelfMade host start vars)
    (glue : host.config.compatIfupdown2BridgePortsInheritVlans = true) (named : key = str "bridge-pvid" ∨ key = str "bridge-vids") :
    SelfMade host start (maybePimp key data vars) := by
  unfold maybePimp
  split
  · exact own
  · split
    · rename_i data _
      have added : key ∈ lifDictKeys (lifDictAdd vars key data) :=
        List.mem_map_of_mem (f := Prod.fst) (List.mem_append_right _ (List.mem_singleton_self (key, data)))
      rcases named with rfl | rfl
      · exact Or.inl (Or.inr (Or.inr ⟨glue, Or.inl added⟩))
      · exact Or.inl (Or.inr (Or.inr ⟨glue, Or.inr added⟩))
    · exact own

theorem pimpToken_arranged {collection : Collection} {bridgePvid bridgeVids : Option VarData} {token : Str}
    (glue : host.config.compatIfupdown2BridgePortsInheritVlans = true) (own : collection.Arranged host) :
    (pimpToken host.config bridgePvid bridgeVids collection token).Arranged host := by
  unfold pimpToken
  split
  · intro x
    rw [iface_write]
    split
    · exact ((own x).pimp glue (Or.inl rfl)).pimp glue (Or.inr rfl)
    · exact own x
  · exact own

end

section
variable {host : Host} {env : DependEnv} {opts : LifExecuteOpts} {fuel : Nat} {options : IfparseOptions} {interfacesFile : Str}
  {s s' : Survey}

theorem SurveyStep.arranged (step : SurveyStep env opts s s') (own : s.collection.Arranged host) : s'.collection.Arranged host := by
  intro x
  cases step with
  | find token =>
    rw [Survey.find, iface_collectionFind]
    exact own x
  | leave parent =>
    rw [Survey.setPending, iface_setPending]
    split <;> exact own x
  | @enter parent answer depth query =>
    rw [Survey.enter, Survey.write, iface_write]
    split
    · rename_i same
      subst same
      exact query_selfMade (own parent) (init_use parent) query
    · exact own x

/-- What the parser establishes, and counting and the compatibility glue keep, is true of what a command works on. -/
theorem ifparseLoad_invariant {inv : Collection → Prop} (loaded : ifparseLoad host env opts fuel options interfacesFile = some (.ok s))
    (parsed : ∀ {ok : Bool} {state : ParseState}, lifInterfaceFileParse host fuel {} interfacesFile = some (ok, state) → inv state.collection)
    (step : ∀ {s s' : Survey}, SurveyStep env opts s s' → inv s.collection → inv s'.collection)
    (reorder : ∀ {collection : Collection}, inv collection → inv collection.reorder)
    (pimp : host.config.compatIfupdown2BridgePortsInheritVlans = true → ∀ {collection bridgePvid bridgeVids token},
      inv collection → inv (pimpToken host.config bridgePvid bridgeVids collection token)) : inv s.collection := by
  have counts {s last : Survey} {depth : Option Nat} (h : lifLifecycleCountRdepends env opts fuel s = some (depth, last))
      (start : inv s.collection) : inv last.collection := by
    have along {next : Survey} (steps : SurveySteps env opts s next) : inv next.collection :=
      steps.invariant (fun s => inv s.collection) step start
    unfold lifLifecycleCountRdepends at h
    split at h
    · cases h
    · rename_i counted
      cases h
      exact along (countEntries_steps counted).1
    · rename_i counted
      cases h
      exact reorder (along (countEntries_steps counted).1)
  unfold ifparseLoad at loaded
  split at loaded
  · cases loaded
  · cases loaded
  rename_i state read
  have start : inv (Survey.mk state.collection 0).collection := parsed read
  dsimp only at loaded
  split at loaded
  · cases loaded
  · cases loaded
  rename_i depth counted result
  have own : inv counted.collection := by
    split at result
    · exact counts result start
    · cases result
      exact start
  obtain ⟨collection, applied, same⟩ := Option.map_eq_some_iff.mp loaded
  cases same
  cases glue : host.config.compatIfupdown2BridgePortsInheritVlans with
  | false =>
    rw [lifCompatApply, glue, if_neg Bool.false_ne_true] at applied
    cases applied
    exact own
  | true => exact lifCompatApply_kept (pimp glue) applied own

theorem ifparseLoad_arranged (loaded : ifparseLoad host env opts fuel options interfacesFile = some (.ok s)) :
    s.collection.Arranged host := by
  refine @ifparseLoad_invariant host env opts fuel options interfacesFile s (fun collection => collection.Arranged host) loaded
    parsed_selfMade (fun step => step.arranged) ?_
    fun glue => pimpToken_arranged glue
  intro collection own x
  rw [iface_reorder]
  exact own x

def Collection.LoMarked (collection : Collection) : Prop :=
  (collection.iface (str "lo")).isAuto = true ∨ (collection.iface (str "lo")).isTemplate = true

theorem change_marks_lo {iface : LifInterface} (step : Change) (flagged : iface.isAuto = true ∨ iface.isTemplate = true) :
    (step.apply host iface).isAuto = true ∨ (step.apply host iface).isTemplate = true := by
  cases step with
  | useExecutor executor =>
    obtain ⟨_, _, _, same⟩ := lifInterfaceUseExecutor_frame host.dhcpHostname iface executor
    rw [Change.apply, same]
    exact flagged
  | addressAdd address =>
    obtain ⟨_, _, _, same⟩ := lifInterfaceAddressAdd_frame host.inetPton iface address
    rw [Change.apply, same]
    exact flagged
  | markAuto => exact flagged.imp_left fun auto => by simp [Change.apply, auto]
  | markTemplate => exact Or.inr rfl
  | _ => exact flagged

theorem edit_loMarked {edit : Edit} {collection collection' : Collection} (h : edit.apply host collection = some collection')
    (marked : collection.LoMarked) : collection'.LoMarked := by
  unfold Collection.LoMarked at *
  cases edit with
  | find ifname =>
    cases h
    rw [iface_collectionFind]
    exact marked
  | change ifname step =>
    cases h
    rw [iface_write]
    split
    · exact change_marks_lo step marked
    · exact marked
  | inherit ifname parent =>
    obtain ⟨vars, -, after⟩ := inherit_iface h
    have template (iface : LifInterface) (flagged : iface.isAuto = true ∨ iface.isTemplate = true) :
        (asTemplate host.config iface).isAuto = true ∨ (asTemplate host.config iface).isTemplate = true := by
      unfold asTemplate
      exact flagged.imp_right fun marked => by simp [marked]
    rw [after]
    dsimp only
    split
    · split
      · exact template _ marked
      · exact marked
    · split
      · exact template _ marked
      · exact marked

theorem ifparseLoad_loMarked (loaded : ifparseLoad host env opts fuel options interfacesFile = some (.ok s)) : s.collection.LoMarked := by
  refine @ifparseLoad_invariant host env opts fuel options interfacesFile s Collection.LoMarked loaded ?_ ?_ ?_ ?_
  · intro ok state parsed
    obtain ⟨reached, made⟩ := lifInterfaceFileParse_traced traced_start parsed
    have start : lifInterfaceCollectionInit.LoMarked := Or.inl rfl
    exact applyEdits_invariant made reached start fun _ _ _ _ step marked => edit_loMarked step marked
  · intro s s' step marked
    unfold Collection.LoMarked at *
    cases step with
    | find token =>
      rw [Survey.find, iface_collectionFind]
      exact marked
    | leave parent =>
      rw [Survey.setPending, iface_setPending]
      split <;> exact marked
    | @enter parent answer depth query =>
      rw [Survey.enter, Survey.write, iface_write]
      split <;> exact marked
  · intro collection marked
    rw [Collection.LoMarked, iface_reorder]
    exact marked
  · intro _ collection bridgePvid bridgeVids token marked
    unfold pimpToken
    split
    · rw [Collection.LoMarked, iface_write]
      split <;> exact marked
    · exact marked

end

theorem rereadFlags_same {name : Str} {iface : LifInterface} (apart : iface.isAuto = true → iface.isTemplate = false)
    (lo : name = str "lo" → iface.isAuto = true ∨ iface.isTemplate = true) :
    rereadFlags (lifInterfaceCollectionInit.iface name).flags iface.flags = iface.flags := by
  have start : (lifInterfaceCollectionInit.iface name).flags = (decide (name = str "lo"), false, false) := by
    have fresh (name : Str) : (lifInterfaceInit name).flags = (false, false, false) := by
      unfold lifInterfaceInit
      dsimp only
      split <;> rfl
    rw [lifInterfaceCollectionInit, iface_write]
    split
    · rename_i own
      subst own
      rfl
    · rename_i other
      rw [decide_eq_false (Ne.symm other)]
      exact fresh name
  rw [start]
  unfold rereadFlags LifInterface.flags at *
  cases auto : iface.isAuto with
  | true => simp [apart auto]
  | false =>
    cases isTemplate : iface.isTemplate with
    | true => simp
    | false =>
      have other : name ≠ str "lo" := by
        intro same
        rcases lo same with yes | yes
        · rw [auto] at yes
          cases yes
        · rw [isTemplate] at yes
          cases yes
      simp [other]

/-- What has been loaded from a file is printed, and a parser with the same settings reads the same interfaces from the text, unless they
have received variables from elsewhere. -/
theorem eni_round_trip {host : Host} {env : DependEnv} {opts : LifExecuteOpts} {inetNtop : InetNtop} {fuel : Nat} {options : IfparseOptions}
    {interfacesFile : Str} {args : List Str} {s : Survey} {reader : Host}
    (loaded : ifparseLoad host env opts fuel options interfacesFile = some (.ok s)) (eni : options.outputFmt = str "ifupdown")
    (distinct : (options.shown s.collection args).Nodup)
    (answered : ∀ name ∈ options.shown s.collection args, Answered env opts (s.collection.iface name))
    (alike : reader.config = host.config ∧ reader.nodename = host.nodename)
    (fits : ∀ name ∈ options.shown s.collection args, PrintsBack reader inetNtop (s.collection.iface name))
    (own : ∀ name ∈ options.shown s.collection args, ¬ Received host (s.collection.iface name).vars)
    (apart : ∀ name ∈ options.shown s.collection args, (s.collection.iface name).isAuto = true → (s.collection.iface name).isTemplate = false) :
    ∃ out, ifparseMain host env opts inetNtop fuel options interfacesFile args =
        some (options.showAll || !args.isEmpty && args.all (options.knows s.collection), out) ∧
      ∀ file depth, reader.fopen file = some out → ∃ state, lifInterfaceFileParse reader (depth + 1) {} file = some (true, state) ∧
        ∀ name ∈ options.shown s.collection args, (state.collection.iface name).vars = (s.collection.iface name).vars ∧
          (state.collection.iface name).flags = (s.collection.iface name).flags := by
  refine ⟨_, ifparseMain_eni loaded eni answered, fun file depth text => ?_⟩
  obtain ⟨state, parsed, -, read⟩ := eni_read distinct fits text depth
  refine ⟨state, parsed, fun name shown => ?_⟩
  have here := read name
  rw [if_pos shown] at here
  obtain ⟨vars, same⟩ := here
  have lo : name = str "lo" → (s.collection.iface name).isAuto = true ∨ (s.collection.iface name).isTemplate = true := by
    rintro rfl
    exact ifparseLoad_loMarked loaded
  refine ⟨vars.trans ?_, same.trans (rereadFlags_same (apart name shown) lo)⟩
  have hostname : reader.dhcpHostname = host.dhcpHostname := by rw [Host.dhcpHostname, Host.dhcpHostname, alike.1, alike.2]
  obtain ⟨first, orderly⟩ := (ifparseLoad_arranged loaded name).resolve_left (own name shown)
  have anonymous : Anonymous reader.dhcpHostname (s.collection.iface name).vars := by
    rw [hostname]
    exact not_not.mp fun named => own name shown (Or.inr (Or.inl named))
  exact foldl_reread (by rwa [alike.1]) (fits name shown).vars anonymous first (init_used name)

theorem static_alike : staticReader.config = staticFile.config ∧ staticReader.nodename = staticFile.nodename := by
  constructor <;> rfl

theorem static_own {vars : LifDict VarData} (same : vars = staticVars) : ¬ Received staticFile vars := by
  subst same
  rintro (inherits | named | ⟨-, pvid | vids⟩)
  · exact absurd inherits (by decide)
  · exact named (Or.inl rfl)
  · exact absurd pvid (by decide)
  · exact absurd vids (by decide)

theorem eni_round_trip_static : ∃ s : Survey, ifparseLoad staticFile unaided {} 10 {} (str "interfaces") = some (.ok s) ∧
    ifparseMain staticFile unaided {} oneNtop 10 {} (str "interfaces") [str "eth0"] = some (true, staticText) ∧
      ∃ state, lifInterfaceFileParse staticReader 1 {} (str "interfaces") = some (true, state) ∧
        (state.collection.iface (str "eth0")).vars = (s.collection.iface (str "eth0")).vars ∧
        (state.collection.iface (str "eth0")).flags = (s.collection.iface (str "eth0")).flags := by
  obtain ⟨s, loaded, shown, vars, flags, -⟩ := staticFile_loaded
  have single {p : Str → Prop} (own : p (str "eth0")) : ∀ name ∈ ({} : IfparseOptions).shown s.collection [str "eth0"], p name := by
    rw [shown, List.forall_mem_singleton]
    exact own
  have fits : PrintsBack staticReader oneNtop (s.collection.iface (str "eth0")) := static_fits (Collection.iface_ifname ..) vars flags
  have isTemplate : (s.collection.iface (str "eth0")).isTemplate = false := by
    simp only [LifInterface.flags, Prod.mk.injEq] at flags
    exact flags.2.1
  obtain ⟨out, main, read⟩ := eni_round_trip loaded rfl (by rw [shown]; exact List.nodup_singleton _)
    (single (static_answered vars)) static_alike (single fits) (single (static_own vars)) (single fun _ => isTemplate)
  obtain rfl : staticText = out := congrArg Prod.snd (Option.some_inj.mp (static_printed.symm.trans main))
  obtain ⟨state, parsed, ifaces⟩ := read (str "interfaces") 0 static_file
  obtain ⟨sameVars, sameFlags⟩ := ifaces (str "eth0") (by rw [shown]; exact List.mem_singleton_self _)
  exact ⟨s, loaded, static_printed, state, parsed, sameVars, sameFlags⟩

end Ifupdown
