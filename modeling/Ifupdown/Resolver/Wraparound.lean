import Ifupdown.Model.Wraparound
import Ifupdown.Resolver.Ledger
import Ifupdown.Resolver.Progress
import Ifupdown.Resolver.RetryUp

/-! A bring-up that finds room for all that it counts does not notice that the counts are bounded. -/
namespace Ifupdown

open Successors

/-- What a bring-up of `root` can go through fits into the counts: each interface is counted once for
itself, and once by each that requires it. -/
def Roomy [DecidableEq α] (G : DepGraph α) (c : α → Nat) (root : α) : Prop :=
  ∀ s : Finset α, (∀ i ∈ s, Relation.ReflTransGen (FreeEdge G c) root i) →
    ∀ x, c x + (if x ∈ s then 1 else 0) + edges G.req s x < 2 ^ 64

def World.Bounded (w : World) : Prop := ∀ x, w.count x < 2 ^ 64

section
variable {α : Type} [DecidableEq α] {G : DepGraph α} {c c' : α → Nat} {ok : Bool} {ev : List (Event α)} {root l : α}

/-- All counts stay in bounds, whether the bring-up succeeds or fails. -/
theorem up_roomy (roomy : Roomy G c root) (run : Up G [] (.run root l) c ok c' ev) (x : α) : c' x < 2 ^ 64 := by
  cases ok with
  | true =>
    have room := roomy (ups ev) (fun i up => (up_reaches run).mp up) x
    rw [up_counts run rfl x]
    simpa [Task.rest] using room
  | false =>
    obtain ⟨f, stack, -, halts, progress⟩ := up_progress run
    have parts := upTo_sublist halts.sublist
    have room := roomy _ (fun i entered => Relation.ReflTransGen.mono
      (fun a b edge => ⟨(parts a).subset edge.1, edge.2⟩) _ _ ((progress.reached i).mp entered)) x
    have fewer := edges_parts parts (ups ev ∪ (stack.map Prod.fst).toFinset) x
    have own := indicator_le (p := x ∈ ups ev) (r := False) fun up => Or.inl (progress.within up)
    rw [progress.counts x]
    simp only [if_false, Nat.add_zero] at own
    omega

/-- There is room if the counts are small and the lists are short. -/
theorem roomy_small {l : List α} (known : ∀ i, i ∉ l → G.req i = []) (low : ∀ x, c x + (l.flatMap G.req).length + 1 < 2 ^ 64) :
    Roomy G c root := by
  intro s _ x
  have inside : edges G.req s x = edges G.req (s.filter (· ∈ l)) x := by
    unfold edges
    rw [Finset.sum_filter]
    refine Finset.sum_congr rfl fun i _ => ?_
    split
    · rfl
    · rename_i absent
      rw [known i absent, List.count_nil]
  have few := edges_le_edgesFrom (g := G.req) (s := s.filter (· ∈ l)) (fun i member => (Finset.mem_filter.mp member).2) x
  have all : edgesFrom G.req l x = (l.flatMap G.req).count x := by
    rw [edgesFrom, List.count_flatMap]
    rfl
  have total := List.count_le_length (a := x) (l := l.flatMap G.req)
  have own : (if x ∈ s then 1 else 0) ≤ 1 := by split <;> omega
  have bound := low x
  omega

end

section
variable {env : Env} {opts : LifExecuteOpts} {w w' : World} {ok : Bool}
  {iface lifname : Str}

theorem World.Bounded.down {w₁ w₂ : World} (bounded : w₂.Bounded) (grows : ∀ x, w₁.count x ≤ w₂.count x) : w₁.Bounded :=
  fun x => (grows x).trans_lt (bounded x)

theorem refIf_grows (w : World) (ifname iface : Str) (x : Str) : w.count x ≤ (w.refIf ifname iface).count x := by
  rw [count_refIf, ref_apply]
  omega

theorem refIf64_eq {ifname iface : Str} (bounded : (w.refIf ifname iface).Bounded) :
    w.refIf64 ifname iface = w.refIf ifname iface := by
  have room := bounded iface
  rw [count_refIf, ref_self] at room
  have whole : lifStateRefIf64 w.state ifname (w.collection.iface iface) = lifStateRefIf w.state ifname (w.collection.iface iface) := by
    unfold lifStateRefIf64 lifStateRefIf
    rw [Nat.mod_eq_of_lt (show (w.collection.iface iface).refcount + 1 < 2 ^ 64 from room)]
  rw [World.refIf64, whole]
  rfl

/-- `r` counts without a bound and never downwards, and `r64` is the same if the counts end in bounds. -/
def Agrees (w : World) (r r64 : Option (Bool × World)) : Prop :=
  ∀ ok w', r = some (ok, w') → (∀ x, w.count x ≤ w'.count x) ∧ (w'.Bounded → r64 = some (ok, w'))

theorem agrees_some (grows : ∀ x, w.count x ≤ w'.count x) : Agrees w (some (ok, w')) (some (ok, w')) := by
  rintro ok w' ⟨⟩
  exact ⟨grows, fun _ => rfl⟩

theorem Agrees.after {v : World} {r r64 : Option (Bool × World)} (agrees : Agrees v r r64) (grows : ∀ x, w.count x ≤ v.count x) :
    Agrees w r r64 := by
  intro ok w' result
  obtain ⟨later, same⟩ := agrees ok w' result
  exact ⟨fun x => (grows x).trans (later x), same⟩

def onSuccess (next : World → Option (Bool × World)) : Option (Bool × World) → Option (Bool × World)
  | none => none
  | some (true, w) => next w
  | some (false, w) => some (false, w)

def finish (ref : World → World) : Bool × World → Option (Bool × World)
  | (true, w) => some (true, ref w)
  | (false, w) => some (false, w)

theorem Agrees.next {r r64 : Option (Bool × World)} (agrees : Agrees w r r64) (next next64 : World → Option (Bool × World))
    (onward : ∀ v, Agrees v (next v) (next64 v)) : Agrees w (onSuccess next r) (onSuccess next64 r64) := by
  intro ok w' result
  rcases r with _ | ⟨_ | _, v⟩
  · cases result
  · obtain ⟨grows, same⟩ := agrees false v rfl
    cases result
    exact ⟨grows, fun bounded => by rw [same bounded]; rfl⟩
  · obtain ⟨grows, same⟩ := agrees true v rfl
    obtain ⟨later, same'⟩ := onward v ok w' result
    refine ⟨fun x => (grows x).trans (later x), fun bounded => ?_⟩
    rw [same (bounded.down later)]
    exact same' bounded

/-- Counting is the same on both sides if what comes behind it is. -/
theorem agrees_ref (next next64 : World → Option (Bool × World)) (onward : ∀ v, Agrees v (next v) (next64 v)) (ifname iface : Str) :
    Agrees w (next (w.refIf ifname iface)) (next64 (w.refIf64 ifname iface)) := by
  intro ok w' result
  obtain ⟨later, same⟩ := onward _ ok w' result
  refine ⟨fun x => (refIf_grows w ifname iface x).trans (later x), fun bounded => ?_⟩
  rw [refIf64_eq (bounded.down later)]
  exact same bounded

theorem handleRefcounting_up (w : World) (token : Str) :
    handleRefcounting w token true = (decide (0 < w.count token), w.refIf (w.collection.iface token).ifname token) := by
  unfold handleRefcounting World.count
  by_cases counted : 0 < (w.collection.iface token).refcount <;> simp [counted]

theorem handleRefcounting64_up (w : World) (token : Str) :
    handleRefcounting64 w token true = (decide (0 < w.count token), w.refIf64 (w.collection.iface token).ifname token) := by
  unfold handleRefcounting64 World.count
  by_cases counted : 0 < (w.collection.iface token).refcount <;> simp [counted]

theorem dependentsLoop64_agrees {run run64 : World → Str → Option (Bool × World)} (runs : ∀ w token, Agrees w (run w token) (run64 w token))
    (tokens : List Str) (w : World) : Agrees w (dependentsLoop run opts true tokens w) (dependentsLoop64 run64 opts true tokens w) := by
  induction tokens generalizing w with
  | nil => exact agrees_some fun _ => Nat.le_refl _
  | cons token rest ih =>
    unfold dependentsLoop dependentsLoop64
    dsimp only
    have create (x) := (congrFun (count_create w token) x).ge
    generalize ({ w with collection := (lifInterfaceCollectionFind w.collection token).2 } : World) = w₀ at create
    by_cases skipped : ((lifInterfaceCollectionFind w.collection token).1.hasConfigError && !opts.force) = true
    · rw [if_pos skipped, if_pos skipped]
      exact (ih w₀).after create
    rw [if_neg skipped, if_neg skipped, handleRefcounting_up, handleRefcounting64_up]
    refine Agrees.after ?_ create
    by_cases counted : 0 < w₀.count token
    · rw [decide_eq_true counted]
      exact agrees_ref _ _ ih _ _
    · rw [decide_eq_false counted]
      exact agrees_ref (fun v => onSuccess (dependentsLoop run opts true rest) (run v token))
        (fun v => onSuccess (dependentsLoop64 run64 opts true rest) (run64 v token)) (fun v => (runs v token).next _ _ ih) _ _

theorem handleDependents64_agrees {run run64 : World → Str → Option (Bool × World)}
    (runs : ∀ w token, Agrees w (run w token) (run64 w token))
    (parent : Str) (w : World) : Agrees w (handleDependents run opts parent w true) (handleDependents64 run64 opts parent w true) := by
  intro ok w' result
  unfold handleDependents at result
  unfold handleDependents64
  split at result
  · rename_i none
    rw [if_pos none]
    cases result
    exact ⟨fun _ => Nat.le_refl _, fun _ => rfl⟩
  rename_i some
  rw [if_neg some]
  split at result
  · cases result
  · rename_i ok v loop
    obtain ⟨grows, same⟩ := dependentsLoop64_agrees runs _ _ _ _ loop
    cases result
    have after (x) : (v.setPending parent false).count x = v.count x := congrFun (count_setPending ..) x
    have before (x) : (w.setPending parent true).count x = w.count x := congrFun (count_setPending ..) x
    refine ⟨fun x => ?_, fun bounded => ?_⟩
    · rw [after, ← before]
      exact grows x
    · rw [same fun x => (after x).symm ▸ bounded x]

theorem lifLifecycleRun_enter (fuel : Nat) (idle : (w.collection.iface iface).isPending = false)
    (ordinary : (w.collection.iface iface).isTemplate = false) :
    lifLifecycleRun env opts (fuel + 1) w iface lifname true =
      onSuccess (fun v => finish (·.refIf lifname iface) (runPhases env opts iface lifname true upPhases v))
        (handleDependents (fun w token => lifLifecycleRun env opts fuel w token (w.collection.iface token).ifname true)
          opts iface w true) := by
  conv => lhs; unfold lifLifecycleRun
  simp only [idle, ordinary, if_true, if_false, Bool.false_eq_true]
  rcases handleDependents _ opts iface w true with _ | ⟨_ | _, v⟩
  · rfl
  · rfl
  · dsimp only [onSuccess]
    rcases runPhases env opts iface lifname true upPhases v with ⟨_ | _, _⟩ <;> rfl

theorem lifLifecycleRun64_enter (fuel : Nat) (idle : (w.collection.iface iface).isPending = false)
    (ordinary : (w.collection.iface iface).isTemplate = false) :
    lifLifecycleRun64 env opts (fuel + 1) w iface lifname true =
      onSuccess (fun v => finish (·.refIf64 lifname iface) (runPhases env opts iface lifname true upPhases v))
        (handleDependents64 (fun w token => lifLifecycleRun64 env opts fuel w token (w.collection.iface token).ifname true)
          opts iface w true) := by
  conv => lhs; unfold lifLifecycleRun64
  simp only [idle, ordinary, if_true, if_false, Bool.false_eq_true]
  rcases handleDependents64 _ opts iface w true with _ | ⟨_ | _, v⟩
  · rfl
  · rfl
  · dsimp only [onSuccess]
    rcases runPhases env opts iface lifname true upPhases v with ⟨_ | _, _⟩ <;> rfl

theorem lifLifecycleRun64_agrees (fuel : Nat) (w : World) (iface lifname : Str) :
    Agrees w (lifLifecycleRun env opts fuel w iface lifname true) (lifLifecycleRun64 env opts fuel w iface lifname true) := by
  induction fuel generalizing w iface lifname with
  | zero => rintro ok w' ⟨⟩
  | succ fuel ih =>
    obtain pending | idle := Bool.eq_false_or_eq_true (w.collection.iface iface).isPending
    · unfold lifLifecycleRun lifLifecycleRun64
      rw [if_pos pending, if_pos pending]
      exact agrees_some fun _ => Nat.le_refl _
    obtain template | ordinary := Bool.eq_false_or_eq_true (w.collection.iface iface).isTemplate
    · unfold lifLifecycleRun lifLifecycleRun64
      simp only [idle, template, Bool.false_eq_true, if_false, if_true]
      exact agrees_some fun _ => Nat.le_refl _
    rw [lifLifecycleRun_enter fuel idle ordinary, lifLifecycleRun64_enter fuel idle ordinary]
    refine (handleDependents64_agrees (fun w token => ih w token _) iface w).next _ _ fun v => ?_
    rcases result : runPhases env opts iface lifname true upPhases v with ⟨ok, v'⟩
    have same (x) : v.count x = v'.count x := congrArg (Books.count · x) (books_runPhases result).symm
    refine Agrees.after ?_ fun x => (same x).le
    cases ok with
    | false => exact agrees_some fun _ => Nat.le_refl _
    | true => exact agrees_ref (fun v => some (true, v)) _ (fun v => agrees_some fun _ => Nat.le_refl _) _ _

theorem lifLifecycleRun64_eq {fuel : Nat} (pending : w.Pending []) (roomy : Roomy (w.collection.graph opts) w.count iface)
    (h : lifLifecycleRun env opts fuel w iface lifname true = some (ok, w')) :
    lifLifecycleRun64 env opts fuel w iface lifname true = some (ok, w') := by
  obtain ⟨ev, run, -⟩ := lifLifecycleRun_up pending h
  exact (lifLifecycleRun64_agrees fuel w iface lifname ok w' h).2 (up_roomy roomy run)

/-- All counts are so small that a call can raise none too far. -/
def World.Spacious (opts : LifExecuteOpts) (w : World) : Prop :=
  let edges := ((lifDictKeys w.collection.entries).flatMap (w.collection.graph opts).req).length
  edges + 1 < 2 ^ 64 ∧ ∀ entry ∈ w.collection.entries, entry.2.refcount + edges + 1 < 2 ^ 64

instance (opts : LifExecuteOpts) (w : World) : Decidable (w.Spacious opts) := inferInstanceAs (Decidable (_ ∧ _))

theorem spacious_roomy (spacious : w.Spacious opts) (iface : Str) : Roomy (w.collection.graph opts) w.count iface := by
  obtain ⟨few, low⟩ := spacious
  refine roomy_small (l := lifDictKeys w.collection.entries) (fun i unlisted => ?_) fun x => ?_
  · have none : requireIfs (w.collection.iface i) = [] := by
      unfold Collection.iface
      rw [lifDictFind_none.mpr unlisted, Option.getD_none, requireIfs_init]
    show (requireIfs (w.collection.iface i)).filter _ = []
    rw [none]
    rfl
  · unfold World.count Collection.iface
    cases found : lifDictFind w.collection.entries x with
    | none =>
      have zero : (lifInterfaceInit x).refcount = 0 := by
        unfold lifInterfaceInit
        split <;> rfl
      rw [Option.getD_none, zero, Nat.zero_add]
      exact few
    | some interface => exact low _ (lifDictFind_mem found)

end

end Ifupdown
