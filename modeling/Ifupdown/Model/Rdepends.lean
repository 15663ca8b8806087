import Mathlib.Data.List.Perm.Subperm
import Ifupdown.Model.Lifecycle

/-! Learning dependencies from executors and ordering the collection by them, from lifecycle.c. -/
namespace Ifupdown

/-- What `build_environment` tells a command about an interface. -/
structure Environment where
  ifname : Str
  isBridge : Bool
  vars : LifDict VarData

def buildEnvironment (iface : LifInterface) : Environment := ⟨iface.ifname, iface.isBridge, iface.vars⟩

/-- The executors in the `depend` phase: which files can be run, and what the `n`-th run prints
into the result buffer if it exits with success. -/
structure DependEnv where
  executable : Str → Bool
  answer : Nat → Str → Environment → Option Str

def queryDependentsFromExecutors (env : DependEnv) (opts : LifExecuteOpts) (envp : Environment) :
    LifDict VarData → Nat → Str → Option (Nat × Str)
  | [], asked, buf => some (asked, buf)
  | entry :: rest, asked, buf =>
    let pathbuf := strlcpy 4096 (opts.executorPath ++ str "/" ++ entry.2.value)
    if entry.1 = str "use" ∧ env.executable pathbuf = true then
      match env.answer asked pathbuf envp with
      | none => none
      | some [] => queryDependentsFromExecutors env opts envp rest (asked + 1) buf
      | some resbuf =>
        queryDependentsFromExecutors env opts envp rest (asked + 1)
          (strlcat 4096 (strlcat 4096 buf (str " ")) resbuf)
    else queryDependentsFromExecutors env opts envp rest asked buf

/-- The loop that keeps a token unless the buffer contains it already. -/
def finalDeps (deps : Str) : Str :=
  (lifTokens deps).foldl
    (fun final token => if strstr final token then final else strlcat 4096 (strlcat 4096 final token) (str " ")) []

/-- The new variables of the interface, unless an executor fails. -/
def lifLifecycleQueryDependents (env : DependEnv) (opts : LifExecuteOpts) (asked : Nat) (iface : LifInterface) :
    Option (Nat × LifDict VarData) :=
  let entry := lifDictFind iface.vars (str "requires")
  let deps := match entry with
    | some requires => strlcpy 4096 requires.value
    | none => []
  match queryDependentsFromExecutors env opts (buildEnvironment iface) iface.vars asked deps with
  | none => none
  | some (asked, deps) =>
    some (asked,
      if entry.isSome then lifDictWrite iface.vars (str "requires") (fun _ => .text (finalDeps deps))
      else if finalDeps deps = [] then iface.vars
      else lifDictAdd iface.vars (str "requires") (.text (finalDeps deps)))

/-- The collection while its dependencies are counted, and how many executors have been asked. -/
structure Survey where
  collection : Collection
  asked : Nat := 0

def Survey.write (s : Survey) (ifname : Str) (f : LifInterface → LifInterface)
    (keeps : ∀ interface, (f interface).ifname = interface.ifname) : Survey :=
  { s with collection := s.collection.write ifname f keeps }

def Survey.setPending (s : Survey) (ifname : Str) (pending : Bool) : Survey :=
  { s with collection := s.collection.setPending ifname pending }

/-- The token loop of `count_interface_rdepends`; `count` is the recursive call. -/
def countTokens (count : Survey → Str → Nat → Option (Bool × Survey)) (depth : Nat) :
    List Str → Survey → Option (Bool × Survey)
  | [], s => some (true, s)
  | token :: rest, s =>
    match count { s with collection := (lifInterfaceCollectionFind s.collection token).2 } token (depth + 1) with
    | none => none
    | some (true, s) => countTokens count depth rest s
    | some (false, s) => some (false, s)

/-- `none` when the recursion is cut off by the fuel. -/
def countInterfaceRdepends (env : DependEnv) (opts : LifExecuteOpts) :
    Nat → Survey → Str → Nat → Option (Bool × Survey)
  | 0, _, _, _ => none
  | fuel + 1, s, parent, depth =>
    if (s.collection.iface parent).isPending then some (true, s)
    else
      match lifLifecycleQueryDependents env opts s.asked (s.collection.iface parent) with
      | none => some (false, s)
      | some (asked, vars) =>
        let s := { s with asked := asked }.write parent
          (fun iface => { iface with vars := vars, isPending := true, rdependsCount := depth }) (fun _ => rfl)
        if (lifDictFind vars (str "requires")).isNone then some (true, s.setPending parent false)
        else
          match countTokens (countInterfaceRdepends env opts fuel) depth (requireIfs (s.collection.iface parent)) s with
          | none => none
          | some (ok, s) => some (ok, s.setPending parent false)

/-- The loop over the collection from its `i`-th entry on. Entries that it makes itself come last
and are walked from too; `rounds` bounds their number. -/
def countEntries (env : DependEnv) (opts : LifExecuteOpts) (fuel : Nat) : Nat → Nat → Survey → Option (Bool × Survey)
  | 0, _, _ => none
  | rounds + 1, i, s =>
    match s.collection.entries[i]? with
    | none => some (true, s)
    | some (name, iface) =>
      match countInterfaceRdepends env opts fuel s name iface.rdependsCount with
      | none => none
      | some (true, s) => countEntries env opts fuel rounds (i + 1) s
      | some (false, s) => some (false, s)

def maxDepth (entries : LifDict LifInterface) : Nat :=
  entries.foldl (fun maxdepth entry => if entry.2.rdependsCount > maxdepth then entry.2.rdependsCount else maxdepth) 0

/-- The move to the temporary list: every entry is inserted at the head. -/
def moveToHead : LifDict LifInterface → LifDict LifInterface → LifDict LifInterface
  | [], list => list
  | entry :: rest, list => moveToHead rest (entry :: list)

/-- One pass over the temporary list: what is left of it, and the list of the collection. -/
def readdDepth (curdepth : Nat) :
    LifDict LifInterface → LifDict LifInterface → LifDict LifInterface × LifDict LifInterface
  | [], list => ([], list)
  | entry :: rest, list =>
    if entry.2.rdependsCount ≠ curdepth then
      let (temp, list) := readdDepth curdepth rest list
      (entry :: temp, list)
    else readdDepth curdepth rest (entry :: list)

def readd : Nat → LifDict LifInterface → LifDict LifInterface → LifDict LifInterface
  | 0, temp, list => (readdDepth 0 temp list).2
  | curdepth + 1, temp, list =>
    let (temp, list) := readdDepth (curdepth + 1) temp list
    readd curdepth temp list

theorem moveToHead_eq (entries list : LifDict LifInterface) : moveToHead entries list = entries.reverse ++ list := by
  induction entries generalizing list with
  | nil => rfl
  | cons entry rest ih => rw [moveToHead, ih, List.reverse_cons, List.append_assoc]; rfl

theorem readdDepth_eq (curdepth : Nat) (temp list : LifDict LifInterface) :
    readdDepth curdepth temp list =
      (temp.filter fun entry => entry.2.rdependsCount ≠ curdepth,
        (temp.filter fun entry => entry.2.rdependsCount = curdepth).reverse ++ list) := by
  induction temp generalizing list with
  | nil => rfl
  | cons entry rest ih =>
    unfold readdDepth
    by_cases other : entry.2.rdependsCount = curdepth
    · simp [other, ih]
    · simp [other, ih]

theorem readd_subperm (curdepth : Nat) (temp list : LifDict LifInterface) :
    (readd curdepth temp list).Subperm (temp ++ list) := by
  have pass (curdepth : Nat) (temp list : LifDict LifInterface) :
      ((readdDepth curdepth temp list).1 ++ (readdDepth curdepth temp list).2).Perm (temp ++ list) := by
    rw [readdDepth_eq, ← List.append_assoc]
    refine List.Perm.append_right list ?_
    refine (List.Perm.append_left _ (List.reverse_perm _)).trans ?_
    have split := List.filter_append_perm (fun entry : Str × LifInterface => decide (entry.2.rdependsCount ≠ curdepth)) temp
    simpa using split
  induction curdepth generalizing temp list with
  | zero => exact (List.sublist_append_right _ _).subperm.trans (pass 0 temp list).subperm
  | succ curdepth ih => exact (ih _ _).trans (pass (curdepth + 1) temp list).subperm

def Collection.reorder (collection : Collection) : Collection where
  entries := readd (maxDepth collection.entries) (moveToHead collection.entries []) []
  named := by
    intro entry member
    have inside := (readd_subperm _ _ _).subset member
    rw [moveToHead_eq, List.append_nil, List.append_nil, List.mem_reverse] at inside
    exact collection.named entry inside
  distinct := by
    obtain ⟨entries, same, sublist⟩ := readd_subperm (maxDepth collection.entries) (moveToHead collection.entries []) []
    rw [moveToHead_eq, List.append_nil, List.append_nil] at sublist
    have keys := sublist.map Prod.fst
    rw [List.map_reverse] at keys
    exact (same.map Prod.fst).nodup_iff.mp (((List.reverse_perm _).nodup_iff.mpr collection.distinct).sublist keys)

/-- The maximal depth, or `none` where the C function returns -1. -/
def lifLifecycleCountRdepends (env : DependEnv) (opts : LifExecuteOpts) (fuel : Nat) (s : Survey) :
    Option (Option Nat × Survey) :=
  match countEntries env opts fuel fuel 0 s with
  | none => none
  | some (false, s) => some (none, s)
  | some (true, s) => some (some (maxDepth s.collection.entries), { s with collection := s.collection.reorder })

end Ifupdown
