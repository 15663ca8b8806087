import Mathlib.Data.Finset.Card
import Mathlib.Logic.Relation
import Ifupdown.Resolver.Learning

/-! The steps in which the dependencies of a collection are counted, whatever the executors answer. -/
namespace Ifupdown

variable {env : DependEnv} {opts : LifExecuteOpts} {s s' : Survey} {parent : Str} {depth : Nat} {ok : Bool}

def Survey.find (s : Survey) (token : Str) : Survey :=
  { s with collection := (lifInterfaceCollectionFind s.collection token).2 }

def Survey.enter (s : Survey) (parent : Str) (depth : Nat) (answer : Nat × LifDict VarData) : Survey :=
  { s with asked := answer.1 }.write parent
    (fun iface => { iface with vars := answer.2, isPending := true, rdependsCount := depth }) (fun _ => rfl)

inductive SurveyStep (env : DependEnv) (opts : LifExecuteOpts) : Survey → Survey → Prop where
  | find (s : Survey) (token : Str) : SurveyStep env opts s (s.find token)
  | enter {s : Survey} {parent : Str} {answer : Nat × LifDict VarData} (depth : Nat)
      (query : lifLifecycleQueryDependents env opts s.asked (s.collection.iface parent) = some answer) :
      SurveyStep env opts s (s.enter parent depth answer)
  | leave (s : Survey) (parent : Str) : SurveyStep env opts s (s.setPending parent false)

abbrev SurveySteps (env : DependEnv) (opts : LifExecuteOpts) : Survey → Survey → Prop :=
  Relation.ReflTransGen (SurveyStep env opts)

def Survey.pending (s : Survey) (x : Str) : Bool := (s.collection.iface x).isPending

def Survey.requires (s : Survey) (x : Str) : List Str := requireIfs (s.collection.iface x)

@[simp] theorem find_pending (token x : Str) : (s.find token).pending x = s.pending x := by
  simp [Survey.find, Survey.pending]

@[simp] theorem enter_pending (answer : Nat × LifDict VarData) (x : Str) :
    (s.enter parent depth answer).pending x = (s.pending x || decide (parent = x)) := by
  simp only [Survey.enter, Survey.pending, Survey.write, iface_write]
  split <;> simp_all

@[simp] theorem leave_pending (x : Str) :
    (s.setPending parent false).pending x = (s.pending x && !decide (parent = x)) := by
  simp only [Survey.setPending, Survey.pending, iface_setPending]
  split <;> simp_all

@[simp] theorem find_requires (token x : Str) : (s.find token).requires x = s.requires x := by
  simp [Survey.find, Survey.requires]

@[simp] theorem leave_requires (x : Str) : (s.setPending parent false).requires x = s.requires x := by
  simp only [Survey.setPending, Survey.requires, iface_setPending]
  split <;> rfl

theorem enter_requires (answer : Nat × LifDict VarData) (x : Str) : (s.enter parent depth answer).requires x =
    if parent = x then requireIfs { s.collection.iface x with vars := answer.2 } else s.requires x := by
  simp only [Survey.enter, Survey.requires, Survey.write, iface_write]
  split <;> rfl

theorem SurveyStep.requires (step : SurveyStep env opts s s') (x : Str) :
    s'.requires x = s.requires x ∨ ∃ more, s'.requires x = keepWords (s.requires x ++ more) ∧
      ((∀ path, env.executable path = false) → more = []) := by
  cases step with
  | find token => exact Or.inl (find_requires token x)
  | leave parent => exact Or.inl (leave_requires x)
  | @enter parent answer depth query =>
    rw [enter_requires]
    split
    · rename_i same
      subst same
      exact Or.inr (query_requires query)
    · exact Or.inl rfl

theorem find_keys (collection : Collection) (ifname : Str) :
    lifDictKeys collection.entries <+: lifDictKeys (lifInterfaceCollectionFind collection ifname).2.entries := by
  rw [collectionFind_keys]
  exact List.prefix_append _ _

theorem write_prefix (collection : Collection) (ifname : Str) (f : LifInterface → LifInterface)
    (keeps : ∀ interface, (f interface).ifname = interface.ifname) :
    lifDictKeys collection.entries <+: lifDictKeys (collection.write ifname f keeps).entries := by
  rw [Collection.write]
  dsimp only
  rw [lifDictKeys_write]
  exact find_keys collection ifname

theorem SurveyStep.keys (step : SurveyStep env opts s s') :
    lifDictKeys s.collection.entries <+: lifDictKeys s'.collection.entries := by
  cases step with
  | find token => exact find_keys _ _
  | leave parent =>
    refine write_prefix _ _ _ ?_
    exact fun _ => rfl
  | enter depth query =>
    refine write_prefix _ _ _ ?_
    exact fun _ => rfl

theorem SurveySteps.keys (steps : SurveySteps env opts s s') :
    lifDictKeys s.collection.entries <+: lifDictKeys s'.collection.entries := by
  induction steps with
  | refl => exact List.prefix_rfl
  | tail _ step ih => exact ih.trans step.keys

theorem SurveySteps.take_keys (steps : SurveySteps env opts s s') {i : Nat} {name : Str} {iface : LifInterface}
    (entry : s.collection.entries[i]? = some (name, iface)) :
    (lifDictKeys s'.collection.entries).take (i + 1) = (lifDictKeys s.collection.entries).take i ++ [name] := by
  obtain ⟨bound, here⟩ := List.getElem?_eq_some_iff.mp entry
  have known : (lifDictKeys s.collection.entries).take (i + 1) = (lifDictKeys s.collection.entries).take i ++ [name] := by
    rw [List.take_succ_eq_append_getElem (by rw [List.length_map]; exact bound), List.getElem_map, here]
  obtain ⟨more, split⟩ := steps.keys
  rw [← known, ← split, List.take_append_of_le_length (by rw [List.length_map]; exact bound)]

/-- What steps keep, counting keeps. -/
theorem SurveySteps.invariant (steps : SurveySteps env opts s s') (inv : Survey → Prop)
    (keep : ∀ {s s' : Survey}, SurveyStep env opts s s' → inv s → inv s') (start : inv s) : inv s' := by
  induction steps with
  | refl => exact start
  | tail _ step ih => exact keep step ih

theorem countTokens_steps {count : Survey → Str → Nat → Option (Bool × Survey)} {tokens : List Str}
    (counts : ∀ {s s' : Survey} {token : Str} {ok : Bool}, count s token (depth + 1) = some (ok, s') →
      SurveySteps env opts s s' ∧ s'.pending = s.pending)
    (h : countTokens count depth tokens s = some (ok, s')) : SurveySteps env opts s s' ∧ s'.pending = s.pending := by
  induction tokens generalizing s with
  | nil =>
    cases h
    exact ⟨.refl, rfl⟩
  | cons token rest ih =>
    have found : (s.find token).pending = s.pending := funext (find_pending token)
    unfold countTokens at h
    split at h
    · cases h
    · rename_i next result
      obtain ⟨steps, same⟩ := counts result
      obtain ⟨later, same'⟩ := ih h
      exact ⟨.head (.find s token) (steps.trans later), same'.trans (same.trans found)⟩
    · rename_i next result
      cases h
      obtain ⟨steps, same⟩ := counts result
      exact ⟨.head (.find s token) steps, same.trans found⟩

/-- An interface that is not on the path is entered, and left when its dependencies have been counted. -/
theorem countInterfaceRdepends_succ (env : DependEnv) (opts : LifExecuteOpts) (fuel : Nat) (s : Survey) (parent : Str)
    (depth : Nat) : countInterfaceRdepends env opts (fuel + 1) s parent depth =
      if s.pending parent = true then some (true, s)
      else match lifLifecycleQueryDependents env opts s.asked (s.collection.iface parent) with
        | none => some (false, s)
        | some answer => (countTokens (countInterfaceRdepends env opts fuel) depth
            ((s.enter parent depth answer).requires parent) (s.enter parent depth answer)).map fun result =>
              (result.1, result.2.setPending parent false) := by
  rw [countInterfaceRdepends]
  refine if_congr Iff.rfl rfl ?_
  rcases lifLifecycleQueryDependents env opts s.asked (s.collection.iface parent) with _ | ⟨asked, vars⟩
  · rfl
  dsimp only
  by_cases absent : (lifDictFind vars (str "requires")).isNone = true
  · have none : (s.enter parent depth (asked, vars)).requires parent = [] := by
      rw [enter_requires, if_pos rfl, requireIfs, Option.isNone_iff_eq_none.mp absent]
    rw [if_pos absent, none]
    rfl
  · rw [if_neg absent]
    change _ = Option.map _ (countTokens _ depth (requireIfs ((s.enter parent depth (asked, vars)).collection.iface parent))
      (s.enter parent depth (asked, vars)))
    unfold Survey.enter
    dsimp only
    split
    · rename_i result
      rw [result]
      rfl
    · rename_i result
      rw [result]
      rfl

theorem countInterfaceRdepends_cases {fuel : Nat}
    (h : countInterfaceRdepends env opts (fuel + 1) s parent depth = some (ok, s')) :
    (s.pending parent = true ∧ ok = true ∧ s' = s) ∨
      s.pending parent = false ∧
        ((lifLifecycleQueryDependents env opts s.asked (s.collection.iface parent) = none ∧ ok = false ∧ s' = s) ∨
          ∃ answer last, lifLifecycleQueryDependents env opts s.asked (s.collection.iface parent) = some answer ∧
            countTokens (countInterfaceRdepends env opts fuel) depth ((s.enter parent depth answer).requires parent)
              (s.enter parent depth answer) = some (ok, last) ∧ s' = last.setPending parent false) := by
  rw [countInterfaceRdepends_succ] at h
  split at h
  · rename_i pending
    cases h
    exact Or.inl ⟨pending, rfl, rfl⟩
  rename_i idle
  refine Or.inr ⟨Bool.eq_false_iff.mpr idle, ?_⟩
  split at h
  · rename_i failed
    cases h
    exact Or.inl ⟨failed, rfl, rfl⟩
  · rename_i answer query
    obtain ⟨⟨ok', last⟩, result, same⟩ := Option.map_eq_some_iff.mp h
    cases same
    exact Or.inr ⟨answer, last, query, result, rfl⟩

theorem countInterfaceRdepends_steps {fuel : Nat} (h : countInterfaceRdepends env opts fuel s parent depth = some (ok, s')) :
    SurveySteps env opts s s' ∧ s'.pending = s.pending := by
  induction fuel generalizing s s' parent depth ok with
  | zero => cases h
  | succ fuel ih =>
    rcases countInterfaceRdepends_cases h with ⟨-, -, rfl⟩ | ⟨idle, ⟨-, -, rfl⟩ | ⟨answer, last, query, result, rfl⟩⟩
    · exact ⟨.refl, rfl⟩
    · exact ⟨.refl, rfl⟩
    · obtain ⟨steps, same⟩ := countTokens_steps ih result
      refine ⟨.head (.enter depth query) (steps.tail (.leave last parent)), ?_⟩
      funext x
      rw [leave_pending, congrFun same x, enter_pending]
      by_cases own : parent = x
      · subst own
        simp [idle]
      · simp [own]

theorem countEntries_steps {fuel rounds i : Nat} (h : countEntries env opts fuel rounds i s = some (ok, s')) :
    SurveySteps env opts s s' ∧ s'.pending = s.pending := by
  induction rounds generalizing i s with
  | zero => cases h
  | succ rounds ih =>
    unfold countEntries at h
    split at h
    · cases h
      exact ⟨.refl, rfl⟩
    · split at h
      · cases h
      · rename_i result
        obtain ⟨first, same⟩ := countInterfaceRdepends_steps result
        obtain ⟨later, same'⟩ := ih h
        exact ⟨first.trans later, same'.trans same⟩
      · rename_i result
        cases h
        exact countInterfaceRdepends_steps result

theorem countInterfaceRdepends_enters {fuel : Nat}
    (h : countInterfaceRdepends env opts fuel s parent depth = some (true, s')) (idle : s.pending parent = false) :
    ∃ answer, lifLifecycleQueryDependents env opts s.asked (s.collection.iface parent) = some answer ∧
      SurveySteps env opts (s.enter parent depth answer) s' := by
  cases fuel with
  | zero => cases h
  | succ fuel =>
    rcases countInterfaceRdepends_cases h with ⟨pending, -⟩ | ⟨-, ⟨-, failed, -⟩ | ⟨answer, last, query, result, rfl⟩⟩
    · rw [idle] at pending
      cases pending
    · cases failed
    · exact ⟨answer, query, (countTokens_steps countInterfaceRdepends_steps result).1.tail (.leave last parent)⟩

theorem countTokens_ok {count : Survey → Str → Nat → Option (Bool × Survey)} {tokens : List Str}
    (counts : ∀ {s s' : Survey} {token : Str} {ok : Bool}, count s token (depth + 1) = some (ok, s') → ok = true)
    (h : countTokens count depth tokens s = some (ok, s')) : ok = true := by
  induction tokens generalizing s with
  | nil =>
    cases h
    rfl
  | cons token rest ih =>
    unfold countTokens at h
    split at h
    · cases h
    · exact ih h
    · rename_i result
      cases counts result

theorem countInterfaceRdepends_ok (answers : ∀ asked iface, (lifLifecycleQueryDependents env opts asked iface).isSome)
    {fuel : Nat} (h : countInterfaceRdepends env opts fuel s parent depth = some (ok, s')) : ok = true := by
  induction fuel generalizing s s' parent depth ok with
  | zero => cases h
  | succ fuel ih =>
    rcases countInterfaceRdepends_cases h with ⟨-, fine, -⟩ | ⟨-, ⟨failed, -⟩ | ⟨answer, last, -, result, -⟩⟩
    · exact fine
    · have asked := answers s.asked (s.collection.iface parent)
      rw [failed] at asked
      cases asked
    · exact countTokens_ok ih result

theorem countEntries_ok (answers : ∀ asked iface, (lifLifecycleQueryDependents env opts asked iface).isSome)
    {fuel rounds i : Nat} (h : countEntries env opts fuel rounds i s = some (ok, s')) : ok = true := by
  induction rounds generalizing i s with
  | zero => cases h
  | succ rounds ih =>
    unfold countEntries at h
    split at h
    · cases h
      rfl
    · split at h
      · cases h
      · exact ih h
      · rename_i result
        cases countInterfaceRdepends_ok answers result

/-- What steps keep and entering an interface establishes is true of all interfaces when counting has succeeded. -/
theorem countEntries_visits (inv : Survey → Prop) (settled : Str → Survey → Prop)
    (keep : ∀ {s s' : Survey}, SurveyStep env opts s s' → inv s → inv s')
    (stay : ∀ {s s' : Survey} {x : Str}, SurveyStep env opts s s' → settled x s → settled x s')
    (enters : ∀ {s : Survey} {x : Str} {answer : Nat × LifDict VarData} (depth : Nat), inv s →
      lifLifecycleQueryDependents env opts s.asked (s.collection.iface x) = some answer → settled x (s.enter x depth answer))
    {fuel rounds i : Nat} (start : inv s) (idle : ∀ x, s.pending x = false)
    (done : ∀ x ∈ (lifDictKeys s.collection.entries).take i, settled x s)
    (h : countEntries env opts fuel rounds i s = some (true, s')) :
    SurveySteps env opts s s' ∧ ∀ x ∈ lifDictKeys s'.collection.entries, settled x s' := by
  induction rounds generalizing i s with
  | zero => cases h
  | succ rounds ih =>
    unfold countEntries at h
    rcases entry : s.collection.entries[i]? with _ | ⟨name, iface⟩
    · have past : (lifDictKeys s.collection.entries).length ≤ i := by
        rw [List.length_map]
        exact List.getElem?_eq_none_iff.mp entry
      rw [List.take_of_length_le past] at done
      rw [entry] at h
      cases h
      exact ⟨.refl, done⟩
    · rw [entry] at h
      dsimp only at h
      split at h
      · cases h
      · rename_i next result
        obtain ⟨answer, query, inside⟩ := countInterfaceRdepends_enters result (idle name)
        obtain ⟨steps, same⟩ := countInterfaceRdepends_steps result
        obtain ⟨later, all⟩ := ih (steps.invariant inv keep start) (fun x => by rw [congrFun same x, idle]) (by
          intro x member
          rw [steps.take_keys entry] at member
          rcases List.mem_append.mp member with old | new
          · exact steps.invariant (settled x) stay (done x old)
          · rw [List.mem_singleton.mp new]
            exact inside.invariant (settled name) stay (enters _ start query)) h
        exact ⟨steps.trans later, all⟩
      · cases h

structure Survey.Within (names : Finset Str) (s : Survey) : Prop where
  keys : ∀ x ∈ lifDictKeys s.collection.entries, x ∈ names
  requires : ∀ x, ∀ d ∈ s.requires x, d ∈ names

def DependEnv.Closed (env : DependEnv) (opts : LifExecuteOpts) (names : Finset Str) : Prop :=
  ∀ asked iface answer, lifLifecycleQueryDependents env opts asked iface = some answer →
    (∀ d ∈ requireIfs iface, d ∈ names) → ∀ d ∈ requireIfs { iface with vars := answer.2 }, d ∈ names

section
variable {names : Finset Str}

theorem write_known {collection : Collection} {ifname : Str} (known : ifname ∈ names)
    (keys : ∀ x ∈ lifDictKeys collection.entries, x ∈ names) (f : LifInterface → LifInterface)
    (keeps : ∀ interface, (f interface).ifname = interface.ifname) :
    ∀ x ∈ lifDictKeys (collection.write ifname f keeps).entries, x ∈ names := by
  intro x member
  rw [Collection.write] at member
  dsimp only at member
  rw [lifDictKeys_write, collectionFind_keys] at member
  rcases List.mem_append.mp member with old | new
  · exact keys x old
  · split at new
    · cases new
    · rw [List.mem_singleton.mp new]
      exact known

theorem Survey.Within.find (within : s.Within names) {token : Str} (known : token ∈ names) : (s.find token).Within names := by
  constructor
  · intro x member
    rw [Survey.find, collectionFind_keys] at member
    rcases List.mem_append.mp member with old | new
    · exact within.keys x old
    · split at new
      · cases new
      · rw [List.mem_singleton.mp new]
        exact known
  · intro x
    rw [find_requires]
    exact within.requires x

theorem Survey.Within.enter (within : s.Within names) (closed : env.Closed opts names) (known : parent ∈ names)
    {answer : Nat × LifDict VarData} (depth : Nat)
    (query : lifLifecycleQueryDependents env opts s.asked (s.collection.iface parent) = some answer) :
    (s.enter parent depth answer).Within names := by
  constructor
  · refine write_known known within.keys _ ?_
    exact fun _ => rfl
  · intro x
    rw [enter_requires]
    split
    · rename_i same
      subst same
      exact closed _ _ _ query (within.requires parent)
    · exact within.requires x

theorem Survey.Within.leave (within : s.Within names) (known : parent ∈ names) :
    (s.setPending parent false).Within names := by
  constructor
  · refine write_known known within.keys _ ?_
    exact fun _ => rfl
  · intro x
    rw [leave_requires]
    exact within.requires x

theorem countTokens_total {count : Survey → Str → Nat → Option (Bool × Survey)} {pending : Str → Bool}
    (counts : ∀ {s : Survey} {token : Str}, s.Within names → s.pending = pending → token ∈ names →
      ∃ ok s', count s token (depth + 1) = some (ok, s') ∧ s'.Within names ∧ s'.pending = pending)
    {tokens : List Str} (known : ∀ token ∈ tokens, token ∈ names) (within : s.Within names) (same : s.pending = pending) :
    ∃ ok s', countTokens count depth tokens s = some (ok, s') ∧ s'.Within names := by
  induction tokens generalizing s with
  | nil => exact ⟨true, s, rfl, within⟩
  | cons token rest ih =>
    obtain ⟨here, later⟩ := List.forall_mem_cons.mp known
    have found : (s.find token).pending = pending := (funext (find_pending token)).trans same
    obtain ⟨ok, next, result, within', same'⟩ := counts (within.find here) found here
    rw [countTokens, show { s with collection := (lifInterfaceCollectionFind s.collection token).2 } = s.find token from rfl,
      result]
    cases ok with
    | true => exact ih later within' same'
    | false => exact ⟨false, next, rfl, within'⟩

/-- Fuel for the names that are not on the path is enough. -/
theorem countInterfaceRdepends_total (depth : Nat) (closed : env.Closed opts names) {fuel : Nat} (within : s.Within names)
    (known : parent ∈ names) (fuelled : (names.filter fun x => s.pending x = false).card < fuel) :
    ∃ ok s', countInterfaceRdepends env opts fuel s parent depth = some (ok, s') ∧ s'.Within names := by
  induction fuel generalizing s parent depth with
  | zero => omega
  | succ fuel ih =>
    rw [countInterfaceRdepends_succ]
    split
    · exact ⟨true, s, rfl, within⟩
    rename_i idle
    rcases query : lifLifecycleQueryDependents env opts s.asked (s.collection.iface parent) with _ | answer
    · exact ⟨false, s, rfl, within⟩
    have entered := within.enter closed known depth query
    have smaller : (names.filter fun x => (s.enter parent depth answer).pending x = false).card < fuel := by
      have inside : parent ∈ names.filter fun x => s.pending x = false := by
        rw [Finset.mem_filter]
        exact ⟨known, Bool.eq_false_iff.mpr idle⟩
      have erased : (names.filter fun x => (s.enter parent depth answer).pending x = false) =
          (names.filter fun x => s.pending x = false).erase parent := by
        ext x
        simp only [enter_pending, Finset.mem_filter, Finset.mem_erase, Bool.or_eq_false_iff, decide_eq_false_iff_not,
          ne_eq, eq_comm (a := x)]
        tauto
      have positive := Finset.card_pos.mpr ⟨parent, inside⟩
      rw [erased, Finset.card_erase_of_mem inside]
      omega
    obtain ⟨ok, last, result, within'⟩ := countTokens_total (fun {s token} within same known => by
      obtain ⟨ok, s', result, within'⟩ := ih (depth + 1) within known (by rw [same]; exact smaller)
      exact ⟨ok, s', result, within', (countInterfaceRdepends_steps result).2.trans same⟩)
      (entered.requires parent) entered rfl
    refine ⟨ok, last.setPending parent false, ?_, within'.leave known⟩
    dsimp only
    rw [result]
    rfl

theorem countEntries_total (closed : env.Closed opts names) {fuel rounds i : Nat} (within : s.Within names)
    (idle : ∀ x, s.pending x = false) (fuelled : names.card < fuel) (bound : i ≤ s.collection.entries.length)
    (enough : names.card < i + rounds) :
    ∃ ok s', countEntries env opts fuel rounds i s = some (ok, s') := by
  have few (s : Survey) (within : s.Within names) : s.collection.entries.length ≤ names.card := by
    have inside : (lifDictKeys s.collection.entries).toFinset ⊆ names := by
      intro x member
      exact within.keys x (List.mem_toFinset.mp member)
    have small := Finset.card_le_card inside
    rwa [List.toFinset_card_of_nodup s.collection.distinct, List.length_map] at small
  induction rounds generalizing i s with
  | zero =>
    have small := few s within
    omega
  | succ rounds ih =>
    unfold countEntries
    rcases entry : s.collection.entries[i]? with _ | ⟨name, iface⟩
    · exact ⟨true, s, rfl⟩
    · have known : name ∈ names := within.keys name (List.mem_map.mpr ⟨_, List.mem_of_getElem? entry, rfl⟩)
      obtain ⟨ok, next, result, within'⟩ := countInterfaceRdepends_total iface.rdependsCount closed within known
        (Nat.lt_of_le_of_lt (Finset.card_filter_le _ _) fuelled)
      dsimp only
      rw [result]
      cases ok with
      | true =>
        obtain ⟨steps, same⟩ := countInterfaceRdepends_steps result
        have here := (List.getElem?_eq_some_iff.mp entry).1
        have longer := steps.keys.length_le
        rw [List.length_map, List.length_map] at longer
        exact ih within' (fun x => by rw [congrFun same x, idle]) (by omega) (by omega)
      | false => exact ⟨false, next, rfl⟩

end

end Ifupdown
