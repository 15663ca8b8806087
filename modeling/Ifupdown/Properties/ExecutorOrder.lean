import Ifupdown.Model.Compat
import Ifupdown.Parser.Executors
import Ifupdown.Resolver.Counting
import Ifupdown.Resolver.Survey

/-! Each executor is tried once in a phase, and the link executor first. -/
namespace Ifupdown

/-- The entries that a loop comes to. The one that fails is the last. -/
def attempted (step : World → Str × VarData → Bool × World) : List (Str × VarData) → World → List (Str × VarData)
  | [], _ => []
  | entry :: rest, w =>
    entry :: match step w entry with
      | (true, w) => attempted step rest w
      | (false, _) => []

def triedExecutors (env : Env) (opts : LifExecuteOpts) (w : World) (vars : LifDict VarData) (up : Bool) : List Str :=
  (dataAt (attempted (handleSingleExecutorForPhase env opts) (if up then vars else vars.reverse) w) (str "use")).map VarData.value

/-- What becomes of a parsed collection before interfaces are brought up or down. -/
inductive Prepared (collection : Collection) : Collection → Prop where
  | parsed : Prepared collection collection
  | counted {later : Collection} (env : DependEnv) (opts : LifExecuteOpts) (fuel asked : Nat) {depth : Option Nat} {s : Survey}
      (before : Prepared collection later) (counted : lifLifecycleCountRdepends env opts fuel ⟨later, asked⟩ = some (depth, s)) :
      Prepared collection s.collection
  | applied {later result : Collection} (config : LifConfig) (before : Prepared collection later)
      (applied : lifCompatApply config later = some result) : Prepared collection result

section
variable {step : World → Str × VarData → Bool × World} {entries : List (Str × VarData)} {w : World} {env : Env}
  {opts : LifExecuteOpts} {vars : LifDict VarData} {up : Bool}

theorem attempted_front : attempted step entries w <+: entries := by
  induction entries generalizing w with
  | nil => exact List.prefix_rfl
  | cons entry rest ih =>
    unfold attempted
    rw [List.prefix_cons_inj]
    split
    · exact ih
    · exact List.nil_prefix

theorem attempted_all (ok : (untilFailure step entries w).1 = true) : attempted step entries w = entries := by
  induction entries generalizing w with
  | nil => rfl
  | cons entry rest ih =>
    unfold untilFailure at ok
    unfold attempted
    split <;> rename_i here <;> rw [here] at ok
    · rw [ih ok]
    · cases ok

theorem attempted_world : (untilFailure step entries w).2 = (attempted step entries w).foldl (fun w entry => (step w entry).2) w := by
  induction entries generalizing w with
  | nil => rfl
  | cons entry rest ih =>
    unfold untilFailure attempted
    rw [List.foldl_cons]
    rcases here : step w entry with ⟨_ | _, next⟩
    · rfl
    · exact ih

theorem dataAt_reverse {α : Type} (dict : LifDict α) (key : Str) : dataAt dict.reverse key = (dataAt dict key).reverse :=
  List.filterMap_reverse

theorem prefix_dataAt {α : Type} {first second : LifDict α} (front : first <+: second) (key : Str) :
    dataAt first key <+: dataAt second key := front.filterMap _

theorem tried_whole : (dataAt (if up then vars else vars.reverse) (str "use")).map VarData.value =
    if up then (dataAt vars (str "use")).map VarData.value else ((dataAt vars (str "use")).map VarData.value).reverse := by
  cases up with
  | true => rfl
  | false => exact (congrArg (List.map VarData.value) (dataAt_reverse vars (str "use"))).trans List.map_reverse

theorem tried_front : triedExecutors env opts w vars up <+:
    if up then (dataAt vars (str "use")).map VarData.value else ((dataAt vars (str "use")).map VarData.value).reverse := by
  rw [← tried_whole]
  exact (prefix_dataAt attempted_front (str "use")).map _

theorem tried_all (ok : (handleExecutorsForPhase env opts w vars up).1 = true) : triedExecutors env opts w vars up =
    if up then (dataAt vars (str "use")).map VarData.value else ((dataAt vars (str "use")).map VarData.value).reverse := by
  unfold triedExecutors
  rw [attempted_all ok, tried_whole]

/-- The phase does what its executors do, one after the other. -/
theorem tried_world : (handleExecutorsForPhase env opts w vars up).2 =
    (triedExecutors env opts w vars up).foldl (fun w executor => (lifMaybeRunExecutor env opts w executor).2) w := by
  have folded (entries : List (Str × VarData)) (w : World) :
      entries.foldl (fun w entry => (handleSingleExecutorForPhase env opts w entry).2) w =
        ((dataAt entries (str "use")).map VarData.value).foldl (fun w executor => (lifMaybeRunExecutor env opts w executor).2) w := by
    induction entries generalizing w with
    | nil => rfl
    | cons entry rest ih =>
      rw [List.foldl_cons, ih, dataAt_cons]
      unfold handleSingleExecutorForPhase
      split
      · rfl
      · rfl
  rw [handleExecutorsForPhase, attempted_world, folded]
  rfl

theorem tried_first : (triedExecutors env opts w vars true).head? = ((dataAt vars (str "use")).map VarData.value).head? := by
  have first (entries : List (Str × VarData)) : (dataAt (attempted (handleSingleExecutorForPhase env opts) entries w) (str "use")).head? =
      (dataAt entries (str "use")).head? := by
    induction entries with
    | nil => rfl
    | cons entry rest ih =>
      unfold attempted
      rw [dataAt_cons, dataAt_cons]
      by_cases use : entry.1 = str "use"
      · rw [if_pos use, if_pos use]
        rfl
      · have skipped : handleSingleExecutorForPhase env opts w entry = (true, w) := if_neg use
        rw [if_neg use, if_neg use, skipped]
        exact ih
  unfold triedExecutors
  rw [List.head?_map, List.head?_map, if_pos rfl, first]

end

section
variable {config : LifConfig} {collection collection' : Collection} {bridge : LifInterface} {pvid vids : Option VarData}

theorem pimpPort_uses (port : LifInterface) : (pimpPort pvid vids port).uses = port.uses := by
  have skipped {key : Str} (other : key ≠ str "use") (data : Option VarData) (vars : LifDict VarData) :
      dataAt (maybePimp key data vars) (str "use") = dataAt vars (str "use") := by
    unfold maybePimp
    cases data with
    | none => rfl
    | some data =>
      dsimp only
      split
      · rw [dataAt_add, if_neg other, List.append_nil]
      · rfl
  unfold pimpPort LifInterface.uses
  dsimp only
  rw [skipped (by decide), skipped (by decide)]

theorem pimpBridge_uses (x : Str) : ((pimpBridge config collection bridge).iface x).uses = (collection.iface x).uses := by
  have tokens (tokens : List Str) (collection : Collection) (pvid vids : Option VarData) :
      ((tokens.foldl (pimpToken config pvid vids) collection).iface x).uses = (collection.iface x).uses := by
    induction tokens generalizing collection with
    | nil => rfl
    | cons first rest ih =>
      rw [List.foldl_cons, ih]
      unfold pimpToken
      split
      · rw [iface_write]
        split
        · exact pimpPort_uses _
        · rfl
      · rfl
  unfold pimpBridge
  split
  · rfl
  dsimp only
  split
  · rfl
  split
  · rfl
  split
  · rfl
  · exact tokens _ _ _ _

theorem compat_uses (applied : lifCompatApply config collection = some collection') (x : Str) :
    (collection'.iface x).uses = (collection.iface x).uses := by
  have loop {fuel : Nat} {names : List Str} {collection : Collection}
      (h : compatIfupdown2BridgePortsInheritVlans config fuel collection names = some collection') :
      (collection'.iface x).uses = (collection.iface x).uses := by
    induction fuel generalizing names collection with
    | zero =>
      cases names with
      | nil =>
        cases h
        rfl
      | cons _ _ => cases h
    | succ fuel ih =>
      cases names with
      | nil =>
        cases h
        rfl
      | cons first rest => exact (ih h).trans (pimpBridge_uses x)
  unfold lifCompatApply at applied
  split at applied
  · exact loop applied
  · cases applied
    rfl

theorem storeRequires_uses (vars : LifDict VarData) (text : Str) : dataAt (storeRequires vars text) (str "use") = dataAt vars (str "use") := by
  have other : str "requires" ≠ str "use" := by decide
  have written (f : VarData → VarData) : dataAt (lifDictWrite vars (str "requires") f) (str "use") = dataAt vars (str "use") := by
    induction vars with
    | nil => rfl
    | cons entry rest ih =>
      obtain ⟨name, data⟩ := entry
      unfold lifDictWrite
      split
      · rename_i same
        subst same
        rw [dataAt_cons, dataAt_cons, if_neg other, if_neg other]
      · rw [dataAt_cons, dataAt_cons, ih]
  unfold storeRequires
  split
  · exact written _
  split
  · rfl
  · rw [dataAt_add, if_neg other, List.append_nil]

end

theorem survey_uses {env : DependEnv} {opts : LifExecuteOpts} {s s' : Survey} (steps : SurveySteps env opts s s') (x : Str) :
    (s'.collection.iface x).uses = (s.collection.iface x).uses := by
  induction steps with
  | refl => rfl
  | tail _ step ih =>
    rw [← ih]
    cases step with
    | find token => rw [Survey.find, iface_collectionFind]
    | leave parent =>
      rw [Survey.setPending, iface_setPending]
      split <;> rfl
    | @enter parent answer depth query =>
      rw [query_eq] at query
      obtain ⟨outputs, -, rfl⟩ := Option.map_eq_some_iff.mp query
      rw [Survey.enter, Survey.write, iface_write]
      split
      · rename_i own
        subst own
        exact storeRequires_uses _ _
      · rfl

theorem prepared_uses {collection later : Collection} (prepared : Prepared collection later) (x : Str) :
    (later.iface x).uses = (collection.iface x).uses := by
  induction prepared with
  | parsed => rfl
  | counted env opts fuel asked before counted ih =>
    rw [← ih]
    unfold lifLifecycleCountRdepends at counted
    split at counted
    · cases counted
    · rename_i result
      cases counted
      exact survey_uses (countEntries_steps result).1 x
    · rename_i result
      cases counted
      dsimp only
      rw [iface_reorder]
      exact survey_uses (countEntries_steps result).1 x
  | applied config before applied ih => exact (compat_uses applied x).trans ih

/-- In every interface of a parsed file each executor is used once, and the first is link. A phase tries them at most once, upwards
in their order and downwards in the reverse one, and leaves some out only after a failure. -/
theorem executors_once (host : Host) (fuel : Nat) (filename : Str) (ok : Bool) (state : ParseState)
    (parsed : lifInterfaceFileParse host fuel {} filename = some (ok, state)) (collection : Collection)
    (prepared : Prepared state.collection collection) (x : Str) :
    let vars := (collection.iface x).vars
    let executors := (collection.iface x).executors
    executors.Nodup ∧ executors.head? = some (str "link") ∧
      ∀ (env : Env) (opts : LifExecuteOpts) (w : World),
        triedExecutors env opts w vars true <+: executors ∧
        triedExecutors env opts w vars false <+: executors.reverse ∧
        (triedExecutors env opts w vars true).head? = some (str "link") ∧
        ∀ up, (triedExecutors env opts w vars up).Nodup ∧
          (handleExecutorsForPhase env opts w vars up).2 =
            (triedExecutors env opts w vars up).foldl (fun w executor => (lifMaybeRunExecutor env opts w executor).2) w ∧
          ((handleExecutorsForPhase env opts w vars up).1 = true →
            triedExecutors env opts w vars up = if up then executors else executors.reverse) := by
  have ranked : LinkFirst (collection.iface x).uses := by
    rw [prepared_uses prepared]
    exact parsed_uses parsed x
  obtain ⟨distinct, first⟩ := ranked.names
  intro vars executors
  refine ⟨distinct, first, fun env opts w => ⟨tried_front, tried_front, tried_first.trans first, fun up => ⟨?_, tried_world, tried_all⟩⟩⟩
  have listed : (if up then executors else executors.reverse).Nodup := by
    split
    · exact distinct
    · exact List.nodup_reverse.mpr distinct
  exact listed.sublist tried_front.sublist

def repeatedUses : Host := oneFile "template trunk
use link
bridge-ports eth0
iface br0 inherits trunk
use bridge
bridge-ports eth1
use link
"

example : (repeatedUses.read.collection.iface (str "br0")).executors = [str "link", str "bridge"] := by decide +kernel

theorem executors_once_repeated : lifInterfaceFileParse repeatedUses 2 {} (str "interfaces") = some (true, repeatedUses.read) ∧
    (repeatedUses.read.collection.iface (str "br0")).executors.Nodup := by
  have parsed : lifInterfaceFileParse repeatedUses 2 {} (str "interfaces") = some (true, repeatedUses.read) :=
    read_parsed (by decide +kernel)
  exact ⟨parsed, (executors_once repeatedUses 2 (str "interfaces") true repeatedUses.read parsed _ .parsed (str "br0")).1⟩

end Ifupdown
