import Ifupdown.Parser.PrintedStanzas
import Ifupdown.Properties.NamedInterfaces
import Ifupdown.Properties.YamlOutput

/-! What ifparse prints by default is a file that the parser reads back as the interfaces that are shown. -/
namespace Ifupdown

/-- The executors answer, and have nothing to add. -/
def Answered (env : DependEnv) (opts : LifExecuteOpts) (iface : LifInterface) : Prop :=
  ∀ asked, ∃ asked', lifLifecycleQueryDependents env opts asked iface = some (asked', iface.vars)

def rereadFlags (start shown : Bool × Bool × Bool) : Bool × Bool × Bool :=
  (!shown.2.1 && (start.1 || shown.1 && !start.2.1), start.2.1 || shown.2.1, start.2.2 || shown.2.2)

section
variable {host : Host} {inetNtop : InetNtop} {parse : ParseState → Str → Option (Bool × ParseState)}
  {state next : ParseState} {iface : LifInterface} {ifaces : List LifInterface}

theorem entries_reread {vars : LifDict VarData} (reads : ∀ entry ∈ vars, ReadsBack host inetNtop entry (shownValue inetNtop entry))
    (start : LifInterface) :
    ((vars.flatMap fun entry => entryChanges host entry.1 (shownValue inetNtop entry)).foldl (Change.apply host) start).vars =
        vars.foldl (rereadVar host) start.vars ∧
      ((vars.flatMap fun entry => entryChanges host entry.1 (shownValue inetNtop entry)).foldl (Change.apply host) start).flags =
        start.flags := by
  induction vars generalizing start with
  | nil => exact ⟨rfl, rfl⟩
  | cons entry rest ih =>
    obtain ⟨own, others⟩ := List.forall_mem_cons.mp reads
    obtain ⟨vars, flags⟩ := entryChanges_reread own start
    obtain ⟨vars', flags'⟩ := ih others ((entryChanges host entry.1 (shownValue inetNtop entry)).foldl (Change.apply host) start)
    rw [List.flatMap_cons, List.foldl_append, List.foldl_cons]
    exact ⟨by rw [vars', vars], flags'.trans flags⟩

theorem stanzaChanges_reread (fits : PrintsBack host inetNtop iface) (start : LifInterface) :
    ((stanzaChanges host inetNtop iface).foldl (Change.apply host) start).vars = iface.vars.foldl (rereadVar host) start.vars ∧
      ((stanzaChanges host inetNtop iface).foldl (Change.apply host) start).flags = rereadFlags start.flags iface.flags := by
  have head : ∃ marked, ((if iface.isAuto then [Change.markAuto] else []) ++ headChanges iface.isTemplate iface.noDefaults).foldl
      (Change.apply host) start = marked ∧ marked.vars = start.vars ∧ marked.flags = rereadFlags start.flags iface.flags := by
    refine ⟨_, rfl, ?_⟩
    unfold headChanges LifInterface.flags rereadFlags
    cases iface.isAuto <;> cases iface.isTemplate <;> cases iface.noDefaults <;> simp [Change.apply]
  obtain ⟨marked, made, vars, flags⟩ := head
  obtain ⟨vars', flags'⟩ := entries_reread fits.vars marked
  rw [stanzaChanges, List.foldl_append, made]
  exact ⟨by rw [vars', vars], flags'.trans flags⟩

theorem foldl_finalized {vars start : LifDict VarData}
    (reads : ∀ entry ∈ vars, ReadsBack host inetNtop entry (shownValue inetNtop entry)) (finalized : Finalized start) :
    Finalized (vars.foldl (rereadVar host) start) := by
  induction vars generalizing start with
  | nil => exact finalized
  | cons entry rest ih =>
    obtain ⟨own, others⟩ := List.forall_mem_cons.mp reads
    exact ih others (finalized.reread own)

theorem stanzas_read (fits : ∀ iface ∈ ifaces, PrintsBack host inetNtop iface) (distinct : (ifaces.map LifInterface.ifname).Nodup)
    (held : state.Held) (done : ∀ x, Finalized (state.collection.iface x).vars) :
    ∃ next, Handles host parse (ifaces.flatMap (stanzaLines inetNtop)) state next ∧ next.Held ∧
      (∀ x, Finalized (next.collection.iface x).vars) ∧
      (∀ x, next.collection.Has x ↔ state.collection.Has x ∨ x ∈ ifaces.map LifInterface.ifname) ∧
      (∀ x, x ∉ ifaces.map LifInterface.ifname → next.collection.iface x = state.collection.iface x) ∧
      ∀ iface ∈ ifaces, next.collection.iface iface.ifname =
        (stanzaChanges host inetNtop iface).foldl (Change.apply host) (state.collection.iface iface.ifname) := by
  induction ifaces generalizing state with
  | nil => exact ⟨state, rfl, held, done, by simp, fun _ _ => rfl, by simp⟩
  | cons iface rest ih =>
    obtain ⟨own, others⟩ := List.forall_mem_cons.mp fits
    obtain ⟨fresh, distinct⟩ := List.nodup_cons.mp distinct
    obtain ⟨next, handled, carries⟩ := @stanza_read host inetNtop parse state iface own held done
    have done' (x : Str) : Finalized (next.collection.iface x).vars := by
      rw [carries.iface]
      split
      · rw [(stanzaChanges_reread own _).1]
        exact foldl_finalized own.vars (done x)
      · exact done x
    obtain ⟨last, later, held', finalized, has, kept, changed⟩ := ih others distinct carries.held done'
    refine ⟨last, handled.append later, held', finalized, fun x => ?_, fun x absent => ?_, ?_⟩
    · rw [has, carries.has, List.map_cons, List.mem_cons, or_assoc]
    · obtain ⟨other, absent⟩ := not_or.mp (mt List.mem_cons.mpr absent)
      rw [kept x absent, carries.iface, if_neg (Ne.symm other)]
    · rw [List.forall_mem_cons]
      refine ⟨by rw [kept _ fresh, carries.iface, if_pos rfl], fun shown member => ?_⟩
      have other : ¬ iface.ifname = shown.ifname := fun same => fresh (same ▸ List.mem_map_of_mem member)
      rw [changed shown member, carries.iface, if_neg other]

theorem stanzaLines_stored (fits : PrintsBack host inetNtop iface) : ∀ line ∈ stanzaLines inetNtop iface, Stored line := by
  intro line member
  rcases List.mem_append.mp member with auto | rest
  · split at auto
    · rw [List.mem_singleton.mp auto]
      exact fits.auto
    · exact (List.not_mem_nil auto).elim
  · rcases List.mem_cons.mp rest with rfl | rest
    · exact fits.head
    · rcases List.mem_append.mp rest with entry | blank
      · obtain ⟨var, inside, rfl⟩ := List.mem_map.mp entry
        exact (fits.vars var inside).stored
      · rw [List.mem_singleton.mp blank]
        exact ⟨by simp, by simp, by simp⟩

theorem eniVariables_lines {vars : LifDict VarData} (reads : ∀ entry ∈ vars, ReadsBack host inetNtop entry (shownValue inetNtop entry)) :
    eniVariables inetNtop vars = physicalText (vars.map fun entry => entryLine entry.1 (shownValue inetNtop entry)) := by
  induction vars with
  | nil => rfl
  | cons entry rest ih =>
    obtain ⟨own, others⟩ := List.forall_mem_cons.mp reads
    have newline : str "\n" = [10] := by decide
    have blank : str " " = [32] := by decide
    have first : eniVariables inetNtop (entry :: rest) =
        str "  " ++ entry.1 ++ str " " ++ shownValue inetNtop entry ++ str "\n" ++ eniVariables inetNtop rest := by
      rw [eniVariables, List.flatMap_cons, own.printed]
      rfl
    rw [first, List.map_cons, physicalText_cons, ← ih others, entryLine, newline, blank]
    simp

theorem eniStanza_lines (fits : PrintsBack host inetNtop iface) : eniStanza inetNtop iface = physicalText (stanzaLines inetNtop iface) := by
  have newline : str "\n" = [10] := by decide
  have blank : str " " = [32] := by decide
  have append (lines more : List Str) : physicalText (lines ++ more) = physicalText lines ++ physicalText more := by
    simp [physicalText]
  have single (line : Str) : physicalText [line] = line ++ [10] := by simp [physicalText]
  unfold eniStanza stanzaLines ifaceLine
  rw [eniVariables_lines fits.vars, append, physicalText_cons, append, single, newline, blank]
  cases iface.isAuto with
  | true => simp [single]
  | false => simp [physicalText]

end

section
variable {env : DependEnv} {opts : LifExecuteOpts} {inetNtop : InetNtop} {options : IfparseOptions} {collection : Collection} {s : Survey}

theorem printed_eni {name : Str} (same : ∀ x, s.collection.iface x = collection.iface x)
    (answered : Answered env opts (collection.iface name)) :
    ∃ after, prettyprintInterfaceEni env opts inetNtop s name = (eniStanza inetNtop (collection.iface name), after) ∧
      (∀ x, after.collection.iface x = collection.iface x) ∧
      ∀ x, after.collection.Has x ↔ s.collection.Has x ∨ x = name := by
  obtain ⟨asked, query⟩ := answered s.asked
  have kept (x : Str) : (if name = x then { s.collection.iface x with vars := (collection.iface name).vars } else
      s.collection.iface x) = collection.iface x := by
    rw [same]
    split
    · rename_i own
      rw [own]
    · rfl
  have iface (x : Str) : (s.collection.write name (fun iface => { iface with vars := (collection.iface name).vars })
      (fun _ => rfl)).iface x = collection.iface x := (iface_write ..).trans (kept x)
  have has (x : Str) : (s.collection.write name (fun iface => { iface with vars := (collection.iface name).vars })
      (fun _ => rfl)).Has x ↔ s.collection.Has x ∨ x = name := write_has
  unfold prettyprintInterfaceEni
  rw [same, query]
  exact ⟨_, by dsimp only [Survey.write]; rw [iface], iface, has⟩

theorem knows_also {name : Str} {after : Collection} (has : ∀ x, after.Has x ↔ collection.Has x ∨ x = name)
    (known : options.knows collection name = true) : options.knows after = options.knows collection := by
  have knows (collection : Collection) (x : Str) :
      options.knows collection x = true ↔ collection.Has x ∨ options.allowUndefined = true := by
    rw [IfparseOptions.knows, Bool.or_eq_true, Option.isSome_iff_ne_none, ne_eq, lifDictFind_none, not_not]
  funext x
  rw [Bool.eq_iff_iff, knows, knows, has]
  refine or_congr_left' (fun undefined => or_iff_left_of_imp ?_)
  rintro rfl
  exact ((knows collection x).mp known).resolve_right undefined

theorem showEntries_eni (names : List Str) (same : ∀ x, s.collection.iface x = collection.iface x)
    (answered : ∀ name ∈ names, Answered env opts (collection.iface name)) :
    (showEntries (prettyprintInterfaceEni env opts inetNtop) names s).1 =
      (names.map collection.iface).flatMap (eniStanza inetNtop) := by
  induction names generalizing s with
  | nil => rfl
  | cons name rest ih =>
    obtain ⟨own, others⟩ := List.forall_mem_cons.mp answered
    obtain ⟨after, printed, same', -⟩ := @printed_eni env opts inetNtop collection s name same own
    unfold showEntries
    rw [printed]
    dsimp only
    rw [ih same' others]
    rfl

theorem showArguments_eni (args : List Str) (same : ∀ x, s.collection.iface x = collection.iface x)
    (answered : ∀ name ∈ args.takeWhile (options.knows s.collection), Answered env opts (collection.iface name)) :
    showArguments (prettyprintInterfaceEni env opts inetNtop) options.allowUndefined args s =
      (args.all (options.knows s.collection),
        ((args.takeWhile (options.knows s.collection)).map collection.iface).flatMap (eniStanza inetNtop)) := by
  induction args generalizing s with
  | nil => rfl
  | cons arg rest ih =>
    unfold showArguments
    have knows : ((lifDictFind s.collection.entries arg).isSome = true ∨ options.allowUndefined = true) ↔
        options.knows s.collection arg = true := by rw [IfparseOptions.knows, Bool.or_eq_true]
    by_cases known : options.knows s.collection arg = true
    · rw [List.takeWhile_cons_of_pos known] at answered
      obtain ⟨own, others⟩ := List.forall_mem_cons.mp answered
      have found (x : Str) : (lifInterfaceCollectionFind s.collection arg).2.iface x = collection.iface x :=
        (iface_collectionFind ..).trans (same x)
      obtain ⟨after, printed, same', has⟩ := @printed_eni env opts inetNtop collection
        { s with collection := (lifInterfaceCollectionFind s.collection arg).2 } arg found own
      have names : options.knows after.collection = options.knows s.collection :=
        knows_also (fun x => by rw [has, find_has, or_assoc, or_self]) known
      rw [if_pos (knows.mpr known), printed]
      dsimp only
      rw [ih same' (by rwa [names]), names, List.all_cons, known, List.takeWhile_cons_of_pos known]
      rfl
    · rw [if_neg fun found => known (knows.mp found), List.all_cons, Bool.eq_false_iff.mpr known, List.takeWhile_cons_of_neg known]
      rfl

end

theorem init_finalized (x : Str) : Finalized (lifInterfaceCollectionInit.iface x).vars := by
  have fresh (name : Str) : Finalized (lifInterfaceInit name).vars := by
    have none_ : Finalized [] := fun _ => nofun
    unfold lifInterfaceInit
    dsimp only
    split
    · exact (none_.use none (str "link")).use none (str "vlan")
    · exact none_.use none (str "link")
  rw [lifInterfaceCollectionInit, iface_write]
  split
  · exact (fresh x).use none (str "loopback")
  · exact fresh x

theorem ifparseMain_eni {host : Host} {env : DependEnv} {opts : LifExecuteOpts} {inetNtop : InetNtop} {fuel : Nat} {options : IfparseOptions}
    {interfacesFile : Str} {args : List Str} {s : Survey}
    (loaded : ifparseLoad host env opts fuel options interfacesFile = some (.ok s)) (eni : options.outputFmt = str "ifupdown")
    (answered : ∀ name ∈ options.shown s.collection args, Answered env opts (s.collection.iface name)) :
    ifparseMain host env opts inetNtop fuel options interfacesFile args =
      some (options.showAll || !args.isEmpty && args.all (options.knows s.collection),
        ((options.shown s.collection args).map s.collection.iface).flatMap (eniStanza inetNtop)) := by
  have impl : bsearch (fun impl => strcmp (str "ifupdown") impl.1) ppImplMap = some (str "ifupdown", .eni) := by decide
  unfold ifparseMain
  rw [loaded]
  dsimp only
  rw [eni, impl]
  dsimp only
  unfold IfparseOptions.shown at answered ⊢
  cases all : options.showAll with
  | true =>
    rw [all, if_pos rfl] at answered
    rw [if_pos rfl, if_pos rfl]
    exact congrArg (fun text => some (true, text)) (showEntries_eni _ (fun _ => rfl) answered)
  | false =>
    rw [all, if_neg Bool.false_ne_true] at answered
    rw [if_neg Bool.false_ne_true, if_neg Bool.false_ne_true]
    cases args with
    | nil => rfl
    | cons arg rest =>
      rw [if_neg (List.cons_ne_nil arg rest)]
      exact congrArg some (showArguments_eni _ (fun _ => rfl) answered)

/-- A parser that is given the stanzas makes of each interface what its lines say. -/
theorem eni_read {reader : Host} {inetNtop : InetNtop} {collection : Collection} {names : List Str} {file : Str} (distinct : names.Nodup)
    (fits : ∀ name ∈ names, PrintsBack reader inetNtop (collection.iface name))
    (text : reader.fopen file = some ((names.map collection.iface).flatMap (eniStanza inetNtop))) (depth : Nat) :
    ∃ state, lifInterfaceFileParse reader (depth + 1) {} file = some (true, state) ∧
      (∀ x, state.collection.Has x ↔ x = str "lo" ∨ x ∈ names) ∧
      ∀ x, if x ∈ names then
          (state.collection.iface x).vars =
            (collection.iface x).vars.foldl (rereadVar reader) (lifInterfaceCollectionInit.iface x).vars ∧
          (state.collection.iface x).flags = rereadFlags (lifInterfaceCollectionInit.iface x).flags (collection.iface x).flags
        else state.collection.iface x = lifInterfaceCollectionInit.iface x := by
  have fits' : ∀ iface ∈ names.map collection.iface, PrintsBack reader inetNtop iface := by
    intro iface member
    obtain ⟨name, inside, rfl⟩ := List.mem_map.mp member
    exact fits name inside
  have same : (names.map collection.iface).map LifInterface.ifname = names := by
    rw [List.map_map]
    exact (List.map_congr_left fun name _ => Collection.iface_ifname ..).trans (List.map_id _)
  have stored : ∀ line ∈ (names.map collection.iface).flatMap (stanzaLines inetNtop), Stored line := by
    intro line member
    obtain ⟨iface, inside, line⟩ := List.mem_flatMap.mp member
    exact stanzaLines_stored (fits' iface inside) _ line
  have lines : (names.map collection.iface).flatMap (eniStanza inetNtop) =
      physicalText ((names.map collection.iface).flatMap (stanzaLines inetNtop)) := by
    rw [physicalText, List.flatMap_assoc]
    exact List.flatMap_congr fun iface member => eniStanza_lines (fits' iface member)
  obtain ⟨last, handled, held, finalized, has, kept, changed⟩ := @stanzas_read reader inetNtop
    (lifInterfaceFileParse reader depth) (({} : ParseState).enter reader file) _ fits' (by rwa [same]) (fun _ => nofun)
    init_finalized
  rw [same] at has kept
  refine ⟨_, by rw [parse_lines rfl text, lines, fileLines_physical stored, handled]; rfl, fun x => ?_, fun x => ?_⟩
  · exact (finalize_done held finalized x).2.trans ((has x).trans (or_congr init_has Iff.rfl))
  · have left : (last.finalize reader).collection.iface x = last.collection.iface x := (finalize_done held finalized x).1
    split
    · rename_i inside
      have read := changed _ (List.mem_map_of_mem inside)
      rw [Collection.iface_ifname] at read
      obtain ⟨vars, flags⟩ := stanzaChanges_reread (fits x inside) (lifInterfaceCollectionInit.iface x)
      rw [← vars, ← flags]
      have same := left.trans read
      exact ⟨congrArg LifInterface.vars same, congrArg LifInterface.flags same⟩
    · rename_i outside
      exact left.trans (kept x outside)

/-- The stanzas are printed, and a parser that is given them makes of each interface what its lines say. -/
theorem eni_reread {host : Host} {env : DependEnv} {opts : LifExecuteOpts} {inetNtop : InetNtop} {fuel : Nat} {options : IfparseOptions}
    {interfacesFile : Str} {args : List Str} {s : Survey} {reader : Host}
    (loaded : ifparseLoad host env opts fuel options interfacesFile = some (.ok s)) (eni : options.outputFmt = str "ifupdown")
    (distinct : (options.shown s.collection args).Nodup)
    (answered : ∀ name ∈ options.shown s.collection args, Answered env opts (s.collection.iface name))
    (fits : ∀ name ∈ options.shown s.collection args, PrintsBack reader inetNtop (s.collection.iface name)) :
    ∃ out, ifparseMain host env opts inetNtop fuel options interfacesFile args =
        some (options.showAll || !args.isEmpty && args.all (options.knows s.collection), out) ∧
      ∀ file depth, reader.fopen file = some out → ∃ state, lifInterfaceFileParse reader (depth + 1) {} file = some (true, state) ∧
        (∀ x, state.collection.Has x ↔ x = str "lo" ∨ x ∈ options.shown s.collection args) ∧
        ∀ x, if x ∈ options.shown s.collection args then
            (state.collection.iface x).vars =
              (s.collection.iface x).vars.foldl (rereadVar reader) (lifInterfaceCollectionInit.iface x).vars ∧
            (state.collection.iface x).flags = rereadFlags (lifInterfaceCollectionInit.iface x).flags (s.collection.iface x).flags
          else state.collection.iface x = lifInterfaceCollectionInit.iface x :=
  ⟨_, ifparseMain_eni loaded eni answered, fun _ depth text => eni_read distinct fits text depth⟩

/-- A test for the lines that are read as they are printed. -/
def lineFits (line : Str) : Bool :=
  line.all (fun c => c != 35 && c != 10 && c != 13) && line.getLast? != some 92 && decide (line.length < 4094)

def entryFits (key value : Str) : Bool :=
  lineFits (entryLine key value) && decide (0 ∉ value) && (value.head?.toList.all fun c => !isSpace c) &&
    (decide (lineKind key = .generic) || decide (Solid value)) && decide (Solid key) && decide (lineKind key ∈ stanzaKinds) &&
    decide (maybeRemapToken key = key)

theorem stored_of_fits {line : Str} (fits : lineFits line = true) : Stored line := by
  simp only [lineFits, Bool.and_eq_true, bne_iff_ne, decide_eq_true_eq, List.all_eq_true] at fits
  obtain ⟨⟨bytes, last⟩, short⟩ := fits
  exact ⟨fun c member => ⟨(bytes c member).1.1, (bytes c member).1.2, (bytes c member).2⟩, last, short⟩

theorem readsBack_of_fits {host : Host} {inetNtop : InetNtop} {entry : Str × VarData} {value : Str}
    (printed : printedValue inetNtop entry = some value) (fits : entryFits entry.1 value = true)
    (data : match entry.2 with
      | .address addr => entry.1 = str "address" ∧ lifAddressParse host.inetPton value = some addr ∧ addr.netmask ≠ 0
      | .text _ => entry.1 ≠ str "address" ∧ entry.1 ≠ str "netmask") : ReadsBack host inetNtop entry value := by
  simp only [entryFits, Bool.and_eq_true, Bool.or_eq_true, decide_eq_true_eq, List.all_eq_true] at fits
  obtain ⟨⟨⟨⟨⟨⟨line, text⟩, start⟩, word⟩, solid⟩, kind⟩, remapped⟩ := fits
  refine ⟨printed, ⟨text, fun c first => ?_, fun other => word.resolve_left other⟩, stored_of_fits line, solid, kind, remapped, data⟩
  simpa using start c (Option.mem_toList.mpr first)

theorem unaided_answered {opts : LifExecuteOpts} {iface : LifInterface} (absent : lifDictFind iface.vars (str "requires") = none) :
    Answered unaided opts iface := by
  have silent (vars : LifDict VarData) (asked : Nat) : queryDependentsFromExecutors unaided opts (buildEnvironment iface) vars asked [] =
      some (asked, []) := by
    induction vars with
    | nil => rfl
    | cons entry rest ih => exact (if_neg fun uses => Bool.false_ne_true uses.2).trans ih
  intro asked
  refine ⟨asked, ?_⟩
  unfold lifLifecycleQueryDependents
  rw [absent]
  dsimp only
  rw [silent]
  rfl

/-- An interface with an address that does without the defaults. -/
def staticFile : Host := { oneFile "auto eth0\niface eth0 no-defaults\n  address 10.0.0.1/24\n  mtu 1400\n" with inetPton := onePton }

def staticSurvey : Survey := loadedSurvey (ifparseLoad staticFile unaided {} 10 {} (str "interfaces"))

def staticText : Str :=
  str "auto eth0\niface eth0 no-defaults\n  use link\n  use static\n  address 10.0.0.1/24\n  mtu 1400\n\n"

def staticReader : Host where
  fopen name := if name = str "interfaces" then some staticText else none
  inetPton := onePton

def staticVars : LifDict VarData :=
  [(str "use", .text (str "link")), (str "use", .text (str "static")), (str "address", .address ⟨[10, 0, 0, 1], 24, .inet⟩),
    (str "mtu", .text (str "1400"))]

theorem staticFile_loaded : ∃ s : Survey, ifparseLoad staticFile unaided {} 10 {} (str "interfaces") = some (.ok s) ∧
    ({} : IfparseOptions).shown s.collection [str "eth0"] = [str "eth0"] ∧ (s.collection.iface (str "eth0")).vars = staticVars ∧
    (s.collection.iface (str "eth0")).flags = (true, false, true) ∧ ({} : IfparseOptions).knows s.collection (str "eth0") = true :=
  ⟨staticSurvey, loadedSurvey_ok (by decide +kernel), by decide +kernel⟩

theorem static_fits {iface : LifInterface} (ifname : iface.ifname = str "eth0") (vars : iface.vars = staticVars)
    (flags : iface.flags = (true, false, true)) : PrintsBack staticReader oneNtop iface := by
  simp only [LifInterface.flags, Prod.mk.injEq] at flags
  obtain ⟨-, isTemplate, noDefaults⟩ := flags
  constructor
  · rw [ifname]
    decide
  · rw [ifname]
    decide
  · rw [ifname]
    exact stored_of_fits (by decide)
  · rw [ifname, isTemplate, noDefaults]
    exact stored_of_fits (by decide)
  · exact Or.inr noDefaults
  · rw [vars]
    simp only [staticVars, List.forall_mem_cons]
    refine ⟨?_, ?_, ?_, ?_, List.forall_mem_nil _⟩
    · exact readsBack_of_fits (by decide) (by decide +kernel) (by decide)
    · exact readsBack_of_fits (by decide) (by decide +kernel) (by decide)
    · exact readsBack_of_fits (by decide +kernel) (by decide +kernel) (by decide +kernel)
    · exact readsBack_of_fits (by decide) (by decide +kernel) (by decide)

theorem static_answered {iface : LifInterface} (vars : iface.vars = staticVars) : Answered unaided {} iface :=
  unaided_answered (by rw [vars]; decide)

theorem static_printed :
    ifparseMain staticFile unaided {} oneNtop 10 {} (str "interfaces") [str "eth0"] = some (true, staticText) := by
  decide +kernel

theorem static_file : staticReader.fopen (str "interfaces") = some staticText := by
  change (if str "interfaces" = str "interfaces" then some staticText else none) = some staticText
  exact if_pos rfl

theorem eni_reread_static :
    ifparseMain staticFile unaided {} oneNtop 10 {} (str "interfaces") [str "eth0"] = some (true, staticText) ∧
      ∃ state, lifInterfaceFileParse staticReader 1 {} (str "interfaces") = some (true, state) ∧
        (state.collection.iface (str "eth0")).vars = staticVars ∧
        (state.collection.iface (str "eth0")).flags = (true, false, true) := by
  obtain ⟨s, loaded, shown, vars, flags, -⟩ := staticFile_loaded
  have single {p : Str → Prop} (own : p (str "eth0")) : ∀ name ∈ ({} : IfparseOptions).shown s.collection [str "eth0"], p name := by
    rw [shown, List.forall_mem_singleton]
    exact own
  have fits : PrintsBack staticReader oneNtop (s.collection.iface (str "eth0")) := static_fits (Collection.iface_ifname ..) vars flags
  obtain ⟨out, main, read⟩ := eni_reread loaded rfl (by rw [shown]; exact List.nodup_singleton _)
    (single (static_answered vars)) (single fits)
  obtain rfl : staticText = out := congrArg Prod.snd (Option.some_inj.mp (static_printed.symm.trans main))
  obtain ⟨state, parsed, -, ifaces⟩ := read (str "interfaces") 0 static_file
  have own := ifaces (str "eth0")
  rw [shown, if_pos (List.mem_singleton_self _), vars, flags] at own
  refine ⟨static_printed, state, parsed, own.1.trans ?_, own.2.trans ?_⟩
  · decide +kernel
  · decide +kernel

end Ifupdown
