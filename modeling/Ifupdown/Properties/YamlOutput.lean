import Ifupdown.Properties.WordedCollections
import Ifupdown.Properties.YamlRoundTrip

/-! What `ifparse -F yaml-raw` prints tells the interfaces, their flags and their variables. -/
namespace Ifupdown

def LifInterface.printed (inetNtop : InetNtop) (iface : LifInterface) : LifDict Str :=
  iface.vars.filterMap fun entry => (printedValue inetNtop entry).map (Prod.mk entry.1)

abbrev Stanza := Str × Bool × LifDict Str

def LifInterface.shown (inetNtop : InetNtop) (iface : LifInterface) : Stanza :=
  (iface.ifname, iface.isAuto, iface.printed inetNtop)

def readVariable : LifYamlNode → Option (Str × Str)
  | .node (some key) (.string value) [] => some (key, value)
  | _ => none

def readStanza : LifYamlNode → Option Stanza
  | .node (some ifname) _ (.node _ (.boolean isAuto) _ :: vars) =>
    (vars.mapM readVariable).map fun vars => (ifname, isAuto, vars)
  | .node (some ifname) _ vars => (vars.mapM readVariable).map fun vars => (ifname, false, vars)
  | .node none _ _ => none

def readStanzas (text : Str) : Option (List Stanza) := (readYaml text).bind fun docs => docs.mapM readStanza

/-- The names and keys have no blanks in them, and each value stays on its line. -/
structure LifInterface.OneLine (inetNtop : InetNtop) (iface : LifInterface) : Prop where
  named : 32 ∉ iface.ifname ∧ 10 ∉ iface.ifname
  vars : ∀ entry ∈ iface.printed inetNtop, 32 ∉ entry.1 ∧ 10 ∉ entry.1 ∧ 10 ∉ entry.2

def IfparseOptions.knows (options : IfparseOptions) (collection : Collection) (arg : Str) : Bool :=
  (lifDictFind collection.entries arg).isSome || options.allowUndefined

/-- The names that are shown: all, or the arguments in front of the first that is unknown. -/
def IfparseOptions.shown (options : IfparseOptions) (collection : Collection) (args : List Str) : List Str :=
  if options.showAll then lifDictKeys collection.entries else args.takeWhile (options.knows collection)

def variableNode (entry : Str × Str) : LifYamlNode := lifYamlNodeNewString (some entry.1) entry.2

section
variable {inetNtop : InetNtop} {iface : LifInterface}

theorem yamlEntries_children (name : Option Str) (value : LifYamlValue) (children : List LifYamlNode) (vars : LifDict VarData) :
    yamlEntries inetNtop (.node name value children) vars = .node name value (children ++
      (vars.filterMap fun entry => (printedValue inetNtop entry).map (Prod.mk entry.1)).map variableNode) := by
  induction vars generalizing children with
  | nil => rw [yamlEntries, List.filterMap_nil, List.map_nil, List.append_nil]
  | cons entry rest ih =>
    unfold yamlEntries
    cases value : printedValue inetNtop entry with
    | none =>
      dsimp only
      rw [ih, List.filterMap_cons_none (by rw [value]; rfl)]
    | some text =>
      dsimp only
      rw [lifYamlNodeAppendChild, ih, List.filterMap_cons_some (b := (entry.1, text)) (by rw [value]; rfl), List.map_cons,
        List.append_assoc]
      rfl

theorem yamlInterface_node : yamlInterface inetNtop iface = .node (some iface.ifname) .list
    ((if iface.isAuto then [.node (some (str "auto")) (.boolean true) []] else []) ++
      (iface.printed inetNtop).map variableNode) := by
  unfold yamlInterface
  dsimp only
  cases iface.isAuto with
  | false => exact yamlEntries_children ..
  | true => exact yamlEntries_children ..

theorem variables_oneLine {entries : List (Str × Str)} (plain : ∀ entry ∈ entries, 32 ∉ entry.1 ∧ 10 ∉ entry.1 ∧ 10 ∉ entry.2) :
    ∀ node ∈ entries.map variableNode, node.All OneLine := by
  intro node member
  obtain ⟨entry, inside, rfl⟩ := List.mem_map.mp member
  obtain ⟨blank, newline, value⟩ := plain entry inside
  refine ⟨⟨⟨entry.1, rfl, blank, newline⟩, fun text same => ?_⟩, trivial⟩
  rwa [← LifYamlValue.string.inj same]

theorem yamlInterface_oneLine (plain : iface.OneLine inetNtop) : (yamlInterface inetNtop iface).All OneLine := by
  rw [yamlInterface_node]
  refine ⟨⟨⟨_, rfl, plain.named⟩, fun text same => LifYamlValue.noConfusion same⟩, allYaml_of_forall fun node member => ?_⟩
  rcases List.mem_append.mp member with flag | entry
  · split at flag
    · rw [List.mem_singleton.mp flag]
      exact ⟨⟨⟨_, rfl, by decide, by decide⟩, fun text same => LifYamlValue.noConfusion same⟩, trivial⟩
    · exact (List.not_mem_nil flag).elim
  · exact variables_oneLine plain.vars node entry

theorem canonicals_variables (entries : List (Str × Str)) : canonicals (entries.map variableNode) = entries.map variableNode := by
  induction entries with
  | nil => rfl
  | cons entry rest ih =>
    rw [List.map_cons, canonicals, ih]
    rfl

theorem readVariables (entries : List (Str × Str)) : (entries.map variableNode).mapM readVariable = some entries := by
  induction entries with
  | nil => rfl
  | cons entry rest ih =>
    rw [List.map_cons, List.mapM_cons, ih]
    rfl

theorem readStanza_yamlInterface : readStanza (yamlInterface inetNtop iface).canonical = some (iface.shown inetNtop) := by
  rw [yamlInterface_node, LifYamlNode.canonical, LifInterface.shown]
  cases iface.isAuto with
  | true =>
    have flag : canonicals ([.node (some (str "auto")) (.boolean true) []] ++ (iface.printed inetNtop).map variableNode) =
        .node (some (str "auto")) (.boolean true) [] :: (iface.printed inetNtop).map variableNode :=
      congrArg (List.cons _) (canonicals_variables _)
    rw [if_pos rfl, flag, readStanza, readVariables]
    rfl
  | false =>
    rw [if_neg Bool.false_ne_true, List.nil_append, canonicals_variables]
    cases vars : iface.printed inetNtop with
    | nil => rfl
    | cons entry rest =>
      have strings (value : LifYamlValue) : readStanza (.node (some iface.ifname) value ((entry :: rest).map variableNode)) =
          (((entry :: rest).map variableNode).mapM readVariable).map fun vars => (iface.ifname, false, vars) := rfl
      rw [strings, readVariables]
      rfl

theorem readStanzas_printed (ifaces : List LifInterface) (plain : ∀ iface ∈ ifaces, iface.OneLine inetNtop) :
    readStanzas (ifaces.flatMap (prettyprintInterfaceYaml inetNtop)) = some (ifaces.map (LifInterface.shown inetNtop)) := by
  have docs : ∀ doc ∈ ifaces.map (yamlInterface inetNtop), doc.All OneLine := by
    intro doc member
    obtain ⟨iface, inside, rfl⟩ := List.mem_map.mp member
    exact yamlInterface_oneLine (plain iface inside)
  have text : ifaces.flatMap (prettyprintInterfaceYaml inetNtop) =
      (ifaces.map (yamlInterface inetNtop)).flatMap fun doc => lifYamlWrite doc true := by
    rw [List.flatMap_map]
    rfl
  rw [readStanzas, text, readYaml_write docs, Option.bind_some]
  clear plain docs text
  induction ifaces with
  | nil => rfl
  | cons iface rest ih =>
    rw [List.map_cons, List.map_cons, List.mapM_cons, readStanza_yamlInterface, ih]
    rfl

end

section
variable {inetNtop : InetNtop} {options : IfparseOptions}

def yamlHandle (inetNtop : InetNtop) : Handle := fun s ifname => (prettyprintInterfaceYaml inetNtop (s.collection.iface ifname), s)

theorem showEntries_yaml (names : List Str) (s : Survey) : showEntries (yamlHandle inetNtop) names s =
    ((names.map s.collection.iface).flatMap (prettyprintInterfaceYaml inetNtop), s) := by
  induction names with
  | nil => rfl
  | cons name rest ih =>
    rw [showEntries]
    dsimp only [yamlHandle]
    rw [show showEntries _ rest s = _ from ih]
    rfl

theorem knows_find {collection : Collection} {arg : Str} (known : options.knows collection arg = true) :
    options.knows (lifInterfaceCollectionFind collection arg).2 = options.knows collection := by
  funext other
  unfold IfparseOptions.knows at known ⊢
  cases undefined : options.allowUndefined with
  | true => rw [Bool.or_true, Bool.or_true]
  | false =>
    rw [undefined, Bool.or_false] at known
    unfold lifInterfaceCollectionFind
    split
    · rfl
    · rename_i absent
      rw [absent] at known
      cases known

theorem showArguments_yaml (args : List Str) (s : Survey) : showArguments (yamlHandle inetNtop) options.allowUndefined args s =
    (args.all (options.knows s.collection),
      ((args.takeWhile (options.knows s.collection)).map s.collection.iface).flatMap (prettyprintInterfaceYaml inetNtop)) := by
  induction args generalizing s with
  | nil => rfl
  | cons arg rest ih =>
    unfold showArguments
    have same : ((lifDictFind s.collection.entries arg).isSome = true ∨ options.allowUndefined = true) ↔
        options.knows s.collection arg = true := by rw [IfparseOptions.knows, Bool.or_eq_true]
    by_cases known : options.knows s.collection arg = true
    · have ifaces : (lifInterfaceCollectionFind s.collection arg).2.iface = s.collection.iface :=
        funext fun other => iface_collectionFind ..
      rw [if_pos (same.mpr known)]
      dsimp only [yamlHandle]
      rw [show showArguments _ _ rest _ = _ from ih _, knows_find known, ifaces, List.all_cons, known, List.takeWhile_cons_of_pos known]
      rfl
    · rw [if_neg fun found => known (same.mp found), List.all_cons, Bool.eq_false_iff.mpr known, List.takeWhile_cons_of_neg known]
      rfl

end

theorem unspaced_oneLine {text : Str} (word : Unspaced text) : 32 ∉ text ∧ 10 ∉ text :=
  ⟨fun blank => Bool.noConfusion (word 32 blank), fun newline => Bool.noConfusion (word 10 newline)⟩

theorem worded_oneLine {collection : Collection} {name : Str} (worded : collection.Worded Unspaced)
    (undefined : name ∉ lifDictKeys collection.entries → 32 ∉ name ∧ 10 ∉ name)
    (values : ∀ entry ∈ (collection.iface name).printed inetNtop, 10 ∉ entry.2) : (collection.iface name).OneLine inetNtop := by
  constructor
  · rw [Collection.iface_ifname]
    by_cases known : name ∈ lifDictKeys collection.entries
    · exact unspaced_oneLine (worded.names name known)
    · exact undefined known
  · intro entry member
    obtain ⟨var, inside, printed⟩ := List.mem_filterMap.mp member
    obtain ⟨value, -, rfl⟩ := Option.map_eq_some_iff.mp printed
    obtain ⟨blank, newline⟩ := unspaced_oneLine (worded.vars name var inside).1.2
    exact ⟨blank, newline, values _ member⟩

/-- What is shown is read back as the stanzas of the interfaces, one for each name, in the order in which they are shown; the command
succeeds unless an argument is missing or unknown. -/
theorem ifparse_yaml {host : Host} {env : DependEnv} {opts : LifExecuteOpts} {inetNtop : InetNtop} {fuel : Nat} {options : IfparseOptions}
    {interfacesFile : Str} {args : List Str} {s : Survey} (loaded : ifparseLoad host env opts fuel options interfacesFile = some (.ok s))
    (yaml : options.outputFmt = str "yaml-raw")
    (undefined : ∀ name ∈ options.shown s.collection args, name ∉ lifDictKeys s.collection.entries → 32 ∉ name ∧ 10 ∉ name)
    (values : ∀ name ∈ options.shown s.collection args, ∀ entry ∈ (s.collection.iface name).printed inetNtop, 10 ∉ entry.2) :
    ∃ out, ifparseMain host env opts inetNtop fuel options interfacesFile args =
        some (options.showAll || !args.isEmpty && args.all (options.knows s.collection), out) ∧
      readStanzas out = some ((options.shown s.collection args).map fun name => (s.collection.iface name).shown inetNtop) := by
  have impl : bsearch (fun impl => strcmp (str "yaml-raw") impl.1) ppImplMap = some (str "yaml-raw", .yaml) := by decide
  have read := readStanzas_printed ((options.shown s.collection args).map s.collection.iface) fun iface member => by
    obtain ⟨name, inside, rfl⟩ := List.mem_map.mp member
    exact worded_oneLine (ifparseLoad_unspaced loaded) (undefined name inside) (values name inside)
  rw [List.map_map] at read
  unfold ifparseMain
  rw [loaded]
  dsimp only
  rw [yaml, impl]
  refine ⟨_, ?_, read⟩
  dsimp only
  unfold IfparseOptions.shown
  cases all : options.showAll with
  | true =>
    rw [if_pos rfl, if_pos rfl]
    exact congrArg (fun shown => some (true, shown.1)) (showEntries_yaml ..)
  | false =>
    rw [if_neg Bool.false_ne_true, if_neg Bool.false_ne_true]
    cases args with
    | nil => rfl
    | cons arg rest =>
      rw [if_neg (List.cons_ne_nil arg rest)]
      exact congrArg some (showArguments_yaml ..)

def mtuStanza : Stanza :=
  (str "eth0", true,
    [(str "use", str "link"), (str "use", str "static"), (str "address", str "10.0.0.1/24"), (str "mtu", str "1400")])

theorem ifparse_yaml_mtu : ∃ out,
    ifparseMain mtuFile unaided {} oneNtop 10 yamlRaw (str "interfaces") [str "eth0"] = some (true, out) ∧
      readStanzas out = some [mtuStanza] := by
  have loaded : ifparseLoad mtuFile unaided {} 10 yamlRaw (str "interfaces") = some (.ok mtuSurvey) :=
    loadedSurvey_ok (by decide +kernel)
  have shown : yamlRaw.shown mtuSurvey.collection [str "eth0"] = [str "eth0"] := by decide +kernel
  have known : (yamlRaw.showAll || !List.isEmpty [str "eth0"] && [str "eth0"].all (yamlRaw.knows mtuSurvey.collection)) = true := by
    decide +kernel
  have printed : (mtuSurvey.collection.iface (str "eth0")).printed oneNtop = mtuStanza.2.2 := by decide +kernel
  have stanza : (mtuSurvey.collection.iface (str "eth0")).shown oneNtop = mtuStanza := by decide +kernel
  have undefined : ∀ name ∈ yamlRaw.shown mtuSurvey.collection [str "eth0"],
      name ∉ lifDictKeys mtuSurvey.collection.entries → 32 ∉ name ∧ 10 ∉ name := by
    rw [shown, List.forall_mem_singleton]
    exact fun _ => by decide
  have values : ∀ name ∈ yamlRaw.shown mtuSurvey.collection [str "eth0"],
      ∀ entry ∈ (mtuSurvey.collection.iface name).printed oneNtop, 10 ∉ entry.2 := by
    rw [shown, List.forall_mem_singleton, printed]
    decide
  obtain ⟨out, result, read⟩ := ifparse_yaml loaded rfl undefined values
  refine ⟨out, ?_, ?_⟩
  · rw [result, known]
  · rw [read, shown, List.map_singleton, stanza]

end Ifupdown
