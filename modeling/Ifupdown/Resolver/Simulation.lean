import Ifupdown.Resolver.Books

/-! `lif_lifecycle_run` follows the relations: each of its runs is a derivation over the
graph that the collection describes. -/
namespace Ifupdown

def LifInterface.config (interface : LifInterface) : LifInterface :=
  { interface with refcount := 0, isPending := false }

def Collection.usable (opts : LifExecuteOpts) (collection : Collection) (d : Str) : Bool :=
  !((collection.iface d).hasConfigError && !opts.force)

def Collection.graph (opts : LifExecuteOpts) (collection : Collection) : DepGraph Str where
  req i := (requireIfs (collection.iface i)).filter (collection.usable opts)
  template i := (collection.iface i).isTemplate
  explicit i := (collection.iface i).isExplicit

theorem usable_congr (opts : LifExecuteOpts) {a b : Collection}
    (same : ∀ x, (a.iface x).config = (b.iface x).config) : a.usable opts = b.usable opts := by
  funext x
  have error : (a.iface x).hasConfigError = (b.iface x).hasConfigError :=
    show (a.iface x).config.hasConfigError = _ by rw [same x]; rfl
  rw [Collection.usable, Collection.usable, error]

theorem graph_congr (opts : LifExecuteOpts) {a b : Collection}
    (same : ∀ x, (a.iface x).config = (b.iface x).config) : a.graph opts = b.graph opts := by
  have requires (x) : requireIfs (a.iface x) = requireIfs (b.iface x) :=
    show requireIfs (a.iface x).config = _ by rw [same x]; rfl
  have template (x) : (a.iface x).isTemplate = (b.iface x).isTemplate :=
    show (a.iface x).config.isTemplate = _ by rw [same x]; rfl
  have explicit (x) : (a.iface x).isExplicit = (b.iface x).isExplicit :=
    show (a.iface x).config.isExplicit = _ by rw [same x]; rfl
  simp only [Collection.graph, requires, usable_congr opts same, template, explicit]

def World.Pending (w : World) (path : List Str) : Prop :=
  ∀ x, (w.collection.iface x).isPending = decide (x ∈ path)

def LifInterface.record (interface : LifInterface) : Option LifStateRecord :=
  if interface.refcount = 0 then none
  else some ⟨interface.ifname, interface.refcount, interface.isExplicit⟩

def World.Synced (w : World) : Prop :=
  ∀ x, lifDictFind w.state.records x = (w.collection.iface x).record

/-- What a stretch of a run leaves alone. Records stay right where interfaces are
recorded under their `own` names. -/
structure Evolves (own : Prop) (path : List Str) (w w' : World) (ev : List (Event Str)) : Prop where
  trace : w'.trace = w.trace ++ ev
  config : ∀ x, (w'.collection.iface x).config = (w.collection.iface x).config
  pending : w'.Pending path
  synced : own → w.Synced → w'.Synced

theorem Evolves.graph (opts : LifExecuteOpts) (h : Evolves own path w w' ev) :
    w'.collection.graph opts = w.collection.graph opts := graph_congr opts h.config

theorem Evolves.trans (first : Evolves own path₁ a b s) (second : Evolves own path₂ b c t) :
    Evolves own path₂ a c (s ++ t) where
  trace := by rw [second.trace, first.trace, List.append_assoc]
  config x := (second.config x).trans (first.config x)
  pending := second.pending
  synced h synced := second.synced h (first.synced h synced)

theorem Evolves.imp (h : Evolves own path a b s) (owned : own' → own) : Evolves own' path a b s where
  trace := h.trace
  config := h.config
  pending := h.pending
  synced h' synced := h.synced (owned h') synced

theorem evolves_refl (pending : World.Pending w path) : Evolves own path w w [] where
  trace := (List.append_nil _).symm
  config _ := rfl
  pending := pending
  synced _ synced := synced

theorem evolves_create (own : Prop) {w : World} (pending : w.Pending path) (token : Str) :
    Evolves own path w { w with collection := (lifInterfaceCollectionFind w.collection token).2 } [] where
  trace := (List.append_nil _).symm
  config x := by simp
  pending x := by simpa using pending x
  synced _ synced x := by simpa using synced x

theorem evolves_setPending {w : World} (pending : w.Pending path) (on : Bool)
    (after : ∀ x, decide (x ∈ path') = if iface = x then on else decide (x ∈ path)) :
    Evolves own path' w (w.setPending iface on) [] where
  trace := (List.append_nil _).symm
  config x := by
    simp only [World.setPending, iface_setPending]
    split <;> rfl
  pending x := by
    simp only [World.setPending, iface_setPending, after]
    split
    · rfl
    · exact pending x
  synced _ synced x := by
    have before := synced x
    simp only [World.setPending, iface_setPending]
    split <;> exact before

theorem evolves_refIf {w : World} (pending : w.Pending path) (ifname iface : Str) :
    Evolves (ifname = iface) path w (w.refIf ifname iface) [] where
  trace := (List.append_nil _).symm
  config x := by
    simp only [World.refIf, iface_setRefcount]
    split <;> rfl
  pending x := by
    have before := pending x
    simp only [World.refIf, iface_setRefcount]
    split <;> exact before
  synced own synced x := by
    subst own
    have before := synced x
    simp only [World.refIf, lifStateRefIf, find_upsert, iface_setRefcount, Collection.iface_ifname]
    by_cases same : ifname = x
    · subst same; simp [LifInterface.record]
    · simpa [same] using before

theorem evolves_unrefIf {w : World} (pending : w.Pending path) (ifname iface : Str) :
    Evolves (ifname = iface) path w (w.unrefIf ifname iface) [] where
  trace := (List.append_nil _).symm
  config x := by
    simp only [World.unrefIf, unrefIf_refcount, iface_setRefcount]
    split <;> rfl
  pending x := by
    have before := pending x
    simp only [World.unrefIf, iface_setRefcount]
    split <;> exact before
  synced own synced x := by
    subst own
    have before := synced x
    simp only [World.unrefIf, iface_setRefcount, lifStateUnrefIf]
    by_cases same : ifname = x
    · subst same
      by_cases zero : (w.collection.iface ifname).refcount = 0
      · simpa [zero, LifInterface.record] using before
      · by_cases last : (w.collection.iface ifname).refcount - 1 = 0
        · simp [zero, last, find_delete, LifInterface.record]
        · simp [zero, last, find_upsert, LifInterface.record]
    · split
      · simpa [same] using before
      · split <;> simpa [same, find_delete, find_upsert] using before

def Untouched (w w' : World) : Prop :=
  w'.collection = w.collection ∧ w'.state = w.state ∧ w'.trace = w.trace

theorem lifExecuteFmt_untouched (env : Env) (opts : LifExecuteOpts) (w : World) (cmd : Str) :
    Untouched w (lifExecuteFmt env opts w cmd).2 := by
  unfold lifExecuteFmt
  split <;> exact ⟨rfl, rfl, rfl⟩

theorem untilFailure_untouched {step : World → Str × VarData → Bool × World}
    (each : ∀ w entry, Untouched w (step w entry).2) (vars : List (Str × VarData)) (w : World) :
    Untouched w (untilFailure step vars w).2 := by
  induction vars generalizing w with
  | nil => exact ⟨rfl, rfl, rfl⟩
  | cons entry rest ih =>
    obtain ⟨collection, state, trace⟩ := each w entry
    simp only [untilFailure]
    rcases found : step w entry with ⟨_ | _, next⟩ <;> rw [found] at collection state trace
    · exact ⟨collection, state, trace⟩
    · obtain ⟨collection', state', trace'⟩ := ih next
      exact ⟨collection'.trans collection, state'.trans state, trace'.trans trace⟩

theorem handleExecutors_untouched (env : Env) (opts : LifExecuteOpts) (w : World)
    (vars : LifDict VarData) (up : Bool) :
    Untouched w (handleExecutorsForPhase env opts w vars up).2 := by
  refine untilFailure_untouched (fun w entry => ?_) _ w
  unfold handleSingleExecutorForPhase lifMaybeRunExecutor
  split
  · dsimp only
    split
    · exact lifExecuteFmt_untouched ..
    · exact ⟨rfl, rfl, rfl⟩
  · exact ⟨rfl, rfl, rfl⟩

theorem handleCommands_untouched (env : Env) (opts : LifExecuteOpts) (w : World)
    (vars : LifDict VarData) (phase : Phase) :
    Untouched w (handleCommandsForPhase env opts w vars phase).2 := by
  refine untilFailure_untouched (fun w entry => ?_) _ w
  split
  · exact lifExecuteFmt_untouched ..
  · exact ⟨rfl, rfl, rfl⟩

/-- A phase leaves the counts and the records alone and is logged with its outcome. -/
theorem runPhase_logged (env : Env) (opts : LifExecuteOpts) (w : World) (iface : Str)
    (phase : Phase) (lifname : Str) (up : Bool) :
    let (ok, w') := lifLifecycleRunPhase env opts w iface phase lifname up
    w'.collection = w.collection ∧ w'.state = w.state ∧
      w'.trace = w.trace ++ [.started iface lifname phase, .finished iface lifname phase ok] := by
  obtain ⟨collection, state, trace⟩ := handleExecutors_untouched env opts
    (w.log (.started iface lifname phase)) (w.collection.iface iface).vars up
  unfold lifLifecycleRunPhase
  dsimp only
  rcases found : handleExecutorsForPhase env opts (w.log (.started iface lifname phase))
    (w.collection.iface iface).vars up with ⟨_ | _, w₁⟩ <;> rw [found] at collection state trace
  · have trace : w₁.trace = w.trace ++ [.started iface lifname phase] := trace
    exact ⟨collection, state, by simp [World.log, trace]⟩
  · have trace : w₁.trace = w.trace ++ [.started iface lifname phase] := trace
    obtain ⟨collection', state', trace'⟩ := handleCommands_untouched env opts w₁
      (w.collection.iface iface).vars phase
    exact ⟨collection'.trans collection, state'.trans state, by simp [World.log, trace', trace]⟩

theorem runPhases_logged {env : Env} {opts : LifExecuteOpts} {iface lifname : Str} {up ok : Bool}
    {phases : List Phase} {w w' : World}
    (h : runPhases env opts iface lifname up phases w = (ok, w')) :
    w'.collection = w.collection ∧ w'.state = w.state ∧ ∃ ev, w'.trace = w.trace ++ ev ∧
      if ok = true then ev = succeeded iface lifname phases else PhasesFail iface lifname phases ev := by
  induction phases generalizing w with
  | nil =>
    cases h
    exact ⟨rfl, rfl, [], (List.append_nil _).symm, rfl⟩
  | cons phase rest ih =>
    have logged := runPhase_logged env opts w iface phase lifname up
    unfold runPhases at h
    rcases found : lifLifecycleRunPhase env opts w iface phase lifname up with ⟨_ | _, w₁⟩ <;>
      rw [found] at logged h <;> obtain ⟨collection, state, trace⟩ := logged
    · cases h
      exact ⟨collection, state, _, trace, [], phase, rest, rfl, rfl⟩
    · obtain ⟨collection', state', ev, trace', outcome⟩ := ih h
      refine ⟨collection'.trans collection, state'.trans state, _,
        by rw [trace', trace, List.append_assoc], ?_⟩
      cases ok with
      | true =>
        obtain rfl : ev = succeeded iface lifname rest := outcome
        rfl
      | false =>
        obtain ⟨done, failed, later, split, rfl⟩ : PhasesFail iface lifname rest ev := outcome
        exact ⟨phase :: done, failed, later, by rw [split]; rfl, rfl⟩

theorem evolves_runPhases (own : Prop) {w w' : World} (pending : w.Pending path)
    (h : runPhases env opts iface lifname up phases w = (ok, w')) :
    ∃ ev, w'.count = w.count ∧ Evolves own path w w' ev ∧
      if ok = true then ev = succeeded iface lifname phases else PhasesFail iface lifname phases ev := by
  obtain ⟨collection, state, ev, trace, outcome⟩ := runPhases_logged h
  refine ⟨ev, by funext x; rw [World.count, World.count, collection],
    ⟨trace, fun x => by rw [collection], ?_, fun _ synced => ?_⟩, outcome⟩
  · intro x
    rw [collection]
    exact pending x
  · intro x
    rw [collection, state]
    exact synced x

/-- A stretch of a run from `w` to `w'` is a derivation of `R` over the graph of `opts`. -/
def Follows (R : DepGraph Str → List Str → Task Str → (Str → Nat) → Bool → (Str → Nat) →
    List (Event Str) → Prop) (opts : LifExecuteOpts) (own : Prop) (path : List Str)
    (task : Task Str) (w : World) (ok : Bool) (w' : World) : Prop :=
  ∃ ev, R (w.collection.graph opts) path task w.count ok w'.count ev ∧ Evolves own path w w' ev

/-- Whether the loop of `handle_dependents` goes on without changing the dependency. -/
def passes (G : DepGraph Str) (up : Bool) (c : Str → Nat) (token : Str) : Bool :=
  (if up then decide (0 < c token) else decide (1 < unref c token token)) ||
    (!up && G.explicit token)

theorem passes_up : passes G true c token = true ↔ 0 < c token := by simp [passes]

theorem passes_down :
    passes G false c token = true ↔ 1 < unref c token token ∨ G.explicit token = true := by
  simp only [passes, Bool.false_eq_true, if_false, Bool.not_false, Bool.true_and, Bool.or_eq_true,
    decide_eq_true_eq]

theorem passes_up_no : passes G true c token = false ↔ c token = 0 := by simp [passes]

theorem passes_down_no :
    passes G false c token = false ↔ unref c token token ≤ 1 ∧ G.explicit token = false := by
  simp only [passes, Bool.false_eq_true, if_false, Bool.not_false, Bool.true_and,
    Bool.or_eq_false_iff, decide_eq_false_iff_not, Nat.not_lt]

theorem handleRefcounting_spec {w : World} (pending : w.Pending path) (token : Str) (up : Bool) :
    ∃ w₁, w₁.books = w.books.post up (token, token) ∧ Evolves True path w w₁ [] ∧
      handleRefcounting w token up =
        (if up then decide (0 < w.count token) else decide (1 < unref w.count token token), w₁) := by
  cases up with
  | true =>
    refine ⟨w.refIf token token, books_refIf .., (evolves_refIf pending ..).imp (fun _ => rfl), ?_⟩
    simp only [handleRefcounting, Collection.iface_ifname, World.count]
    by_cases counted : 0 < (w.collection.iface token).refcount <;> simp [counted]
  | false =>
    refine ⟨w.unrefIf token token, books_unrefIf .., (evolves_unrefIf pending ..).imp (fun _ => rfl), ?_⟩
    simp only [handleRefcounting, Collection.iface_ifname, ← count_unrefIf w token token, World.count]
    by_cases needed : 1 < ((w.unrefIf token token).collection.iface token).refcount <;> simp [needed]

theorem dependentsLoop_step (opts : LifExecuteOpts) {w : World} (pending : w.Pending path) (token : Str) (up : Bool) :
    ∃ w₀ w₁, (w₀.books = w.books ∧ Evolves True path w w₀ []) ∧
      (w₁.books = w.books.post up (token, token) ∧ Evolves True path w w₁ []) ∧
      ∀ run rest, dependentsLoop run opts up (token :: rest) w =
        if w.collection.usable opts token = false then dependentsLoop run opts up rest w₀
        else if passes (w.collection.graph opts) up w.count token = true then
          dependentsLoop run opts up rest w₁
        else
          match run w₁ token with
          | none => none
          | some (true, w₂) => dependentsLoop run opts up rest w₂
          | some (false, w₂) => some (false, w₂) := by
  have create := evolves_create True pending token
  have books := books_create w token
  have counts := count_create w token
  obtain ⟨w₁, counted, step, same⟩ := handleRefcounting_spec create.pending token up
  have whole := create.trans step
  have explicit : (w₁.collection.iface token).isExplicit = (w.collection.iface token).isExplicit :=
    show (w₁.collection.iface token).config.isExplicit = _ by rw [whole.config token]; rfl
  rw [books] at counted
  rw [counts] at same
  refine ⟨_, w₁, ⟨books, create⟩, ⟨counted, whole⟩, fun run rest => ?_⟩
  conv => lhs; unfold dependentsLoop
  simp only [lifInterfaceCollectionFind_fst, same]
  unfold Collection.usable passes Collection.graph
  cases ((w.collection.iface token).hasConfigError && !opts.force) with
  | true => rfl
  | false =>
    cases (if up then decide (0 < w.count token) else decide (1 < unref w.count token token)) with
    | true => rfl
    | false =>
      dsimp only
      rw [explicit]
      cases (!up && (w.collection.iface token).isExplicit) with
      | true => rfl
      | false =>
        rcases run w₁ token with _ | ⟨_ | _, w₂⟩ <;> rfl

theorem dependentsLoop_cases {run : World → Str → Option (Bool × World)} {w w' : World}
    (pending : w.Pending path) (h : dependentsLoop run opts up (token :: rest) w = some (ok, w')) :
    (w.collection.usable opts token = false ∧ ∃ w₁, w₁.books = w.books ∧
      Evolves True path w w₁ [] ∧ dependentsLoop run opts up rest w₁ = some (ok, w')) ∨
    (w.collection.usable opts token = true ∧ ∃ w₁, w₁.books = w.books.post up (token, token) ∧
      Evolves True path w w₁ [] ∧
        ((passes (w.collection.graph opts) up w.count token = true ∧
            dependentsLoop run opts up rest w₁ = some (ok, w')) ∨
          (passes (w.collection.graph opts) up w.count token = false ∧
            ((∃ w₂, run w₁ token = some (true, w₂) ∧
                dependentsLoop run opts up rest w₂ = some (ok, w')) ∨
              (run w₁ token = some (false, w') ∧ ok = false))))) := by
  obtain ⟨w₀, w₁, ⟨books, create⟩, ⟨counted, step⟩, turn⟩ := dependentsLoop_step opts pending token up
  rw [turn] at h
  split at h
  · rename_i unusable
    exact Or.inl ⟨unusable, w₀, books, create, h⟩
  rename_i usable
  refine Or.inr ⟨by simpa using usable, w₁, counted, step, ?_⟩
  split at h
  · rename_i passed
    exact Or.inl ⟨passed, h⟩
  rename_i changed
  refine Or.inr ⟨by simpa using changed, ?_⟩
  rcases result : run w₁ token with _ | ⟨_ | _, w₂⟩ <;> rw [result] at h
  · cases h
  · cases h
    exact Or.inr ⟨rfl, rfl⟩
  · exact Or.inl ⟨w₂, rfl, h⟩

theorem dependentsLoop_up {run : World → Str → Option (Bool × World)}
    (runs : ∀ w token ok w', w.Pending path → run w token = some (ok, w') →
      Follows Up opts True path (.run token token) w ok w')
    {tokens : List Str} {w w' : World} (pending : w.Pending path)
    (h : dependentsLoop run opts true tokens w = some (ok, w')) :
    Follows Up opts True path (.deps (tokens.filter (w.collection.usable opts))) w ok w' := by
  induction tokens generalizing w with
  | nil =>
    cases h
    exact ⟨[], .nil, evolves_refl pending⟩
  | cons token rest ih =>
    obtain ⟨unusable, w₁, books, step, h⟩ | ⟨usable, w₁, books, step, outcome⟩ :=
      dependentsLoop_cases pending h
    · have counts : w₁.count = w.count := congrArg Books.count books
      obtain ⟨ev, tail, evolves⟩ := ih step.pending h
      rw [step.graph opts, usable_congr opts step.config, counts] at tail
      exact ⟨ev, by rwa [List.filter_cons_of_neg (by simp [unusable])], step.trans evolves⟩
    · have counts : w₁.count = ref w.count token := congrArg Books.count books
      rw [List.filter_cons_of_pos usable]
      obtain ⟨held, h⟩ | ⟨uncounted, ⟨w₂, result, h⟩ | ⟨result, rfl⟩⟩ := outcome
      · obtain ⟨ev, tail, evolves⟩ := ih step.pending h
        rw [step.graph opts, usable_congr opts step.config, counts] at tail
        exact ⟨ev, .held (passes_up.mp held) tail, step.trans evolves⟩
      · obtain ⟨ev₁, first, evolves₁⟩ := runs _ _ _ _ step.pending result
        rw [step.graph opts, counts] at first
        have whole := step.trans evolves₁
        obtain ⟨ev₂, tail, evolves₂⟩ := ih evolves₁.pending h
        rw [whole.graph opts, usable_congr opts whole.config] at tail
        exact ⟨ev₁ ++ ev₂, .raised (passes_up_no.mp uncounted) first tail, whole.trans evolves₂⟩
      · obtain ⟨ev, first, evolves⟩ := runs _ _ _ _ step.pending result
        rw [step.graph opts, counts] at first
        exact ⟨ev, .broken (passes_up_no.mp uncounted) first, step.trans evolves⟩

theorem dependentsLoop_down {run : World → Str → Option (Bool × World)}
    (runs : ∀ w token ok w', w.Pending path → run w token = some (ok, w') →
      Follows Down opts True path (.run token token) w ok w')
    {tokens : List Str} {w w' : World} (pending : w.Pending path)
    (h : dependentsLoop run opts false tokens w = some (ok, w')) :
    Follows Down opts True path (.deps (tokens.filter (w.collection.usable opts))) w ok w' := by
  induction tokens generalizing w with
  | nil =>
    cases h
    exact ⟨[], .nil, evolves_refl pending⟩
  | cons token rest ih =>
    obtain ⟨unusable, w₁, books, step, h⟩ | ⟨usable, w₁, books, step, outcome⟩ :=
      dependentsLoop_cases pending h
    · have counts : w₁.count = w.count := congrArg Books.count books
      obtain ⟨ev, tail, evolves⟩ := ih step.pending h
      rw [step.graph opts, usable_congr opts step.config, counts] at tail
      exact ⟨ev, by rwa [List.filter_cons_of_neg (by simp [unusable])], step.trans evolves⟩
    · have counts : w₁.count = unref w.count token := congrArg Books.count books
      rw [List.filter_cons_of_pos usable]
      obtain ⟨passed, h⟩ | ⟨alone, ⟨w₂, result, h⟩ | ⟨result, rfl⟩⟩ := outcome
      · obtain ⟨ev, tail, evolves⟩ := ih step.pending h
        rw [step.graph opts, usable_congr opts step.config, counts] at tail
        refine ⟨ev, ?_, step.trans evolves⟩
        by_cases needed : 1 < unref w.count token token
        · exact .held needed tail
        · exact .kept (by omega) ((passes_down.mp passed).resolve_left needed) tail
      · obtain ⟨ev₁, first, evolves₁⟩ := runs _ _ _ _ step.pending result
        rw [step.graph opts, counts] at first
        have whole := step.trans evolves₁
        obtain ⟨ev₂, tail, evolves₂⟩ := ih evolves₁.pending h
        rw [whole.graph opts, usable_congr opts whole.config] at tail
        obtain ⟨unneeded, implicit⟩ := passes_down_no.mp alone
        exact ⟨ev₁ ++ ev₂, .released unneeded implicit first tail, whole.trans evolves₂⟩
      · obtain ⟨ev, first, evolves⟩ := runs _ _ _ _ step.pending result
        rw [step.graph opts, counts] at first
        obtain ⟨unneeded, implicit⟩ := passes_down_no.mp alone
        exact ⟨ev, .broken unneeded implicit first, step.trans evolves⟩

theorem evolves_enter (own : Prop) {w : World} (pending : w.Pending path) (iface : Str) :
    Evolves own (iface :: path) w (w.setPending iface true) [] := by
  refine evolves_setPending pending true fun x => ?_
  by_cases same : iface = x
  · subst same; simp
  · simp [same, Ne.symm same]

theorem evolves_leave {w : World} (pending : w.Pending (iface :: path)) (fresh : iface ∉ path) :
    Evolves own path w (w.setPending iface false) [] := by
  refine evolves_setPending pending false fun x => ?_
  by_cases same : iface = x
  · subst same; simp [fresh]
  · simp [same, Ne.symm same]

theorem handleDependents_follows {R : DepGraph Str → List Str → Task Str → (Str → Nat) → Bool →
      (Str → Nat) → List (Event Str) → Prop}
    (nil : ∀ G path c, R G path (.deps []) c true c [])
    (loop : ∀ path tokens w ok w', w.Pending path → dependentsLoop run opts up tokens w = some (ok, w') →
      Follows R opts True path (.deps (tokens.filter (w.collection.usable opts))) w ok w')
    {w w' : World} (pending : w.Pending path) (fresh : parent ∉ path)
    (h : handleDependents run opts parent w up = some (ok, w')) :
    ∃ ev, R (w.collection.graph opts) (parent :: path) (.deps ((w.collection.graph opts).req parent))
      w.count ok w'.count ev ∧ Evolves True path w w' ev := by
  unfold handleDependents at h
  split at h
  · rename_i absent
    cases h
    have empty : requireIfs (w.collection.iface parent) = [] := by
      unfold requireIfs
      rw [Option.isNone_iff_eq_none.mp absent]
    exact ⟨[], by simpa only [Collection.graph, empty, List.filter_nil] using nil .., evolves_refl pending⟩
  · have enter := evolves_enter True pending parent
    split at h
    · cases h
    · rename_i w₁ result
      cases h
      obtain ⟨ev, deps, evolves⟩ := loop _ _ _ _ _ enter.pending result
      rw [enter.graph opts, usable_congr opts enter.config, count_setPending] at deps
      refine ⟨ev, by rw [count_setPending]; exact deps, ?_⟩
      have whole := (enter.trans evolves).trans (evolves_leave evolves.pending fresh)
      rwa [List.append_nil] at whole

theorem lifLifecycleRun_up {w w' : World} (pending : w.Pending path)
    (h : lifLifecycleRun env opts fuel w iface lifname true = some (ok, w')) :
    Follows Up opts (lifname = iface) path (.run iface lifname) w ok w' := by
  induction fuel generalizing w path iface lifname ok w' with
  | zero => cases h
  | succ fuel ih =>
    unfold lifLifecycleRun at h
    rw [pending iface] at h
    by_cases loop : iface ∈ path
    · simp only [loop, decide_true, if_true] at h
      cases h
      exact ⟨[], .pending loop, evolves_refl pending⟩
    simp only [loop, decide_false, Bool.false_eq_true, if_false] at h
    by_cases template : (w.collection.iface iface).isTemplate = true
    · simp only [template, if_true] at h
      cases h
      exact ⟨[], .template loop template, evolves_refl pending⟩
    have ordinary : (w.collection.graph opts).template iface = false := Bool.eq_false_of_not_eq_true template
    simp only [template, if_true] at h
    rcases result : handleDependents (fun w iface => lifLifecycleRun env opts fuel w iface
        (w.collection.iface iface).ifname true) opts iface w true with _ | ⟨done, w₁⟩ <;>
      rw [result] at h
    · cases h
    obtain ⟨ev, deps, evolves⟩ := handleDependents_follows (R := Up) (fun _ _ _ => .nil)
      (fun path tokens w ok w' pending h => dependentsLoop_up (fun w token ok w' pending h => by
        rw [Collection.iface_ifname] at h
        obtain ⟨ev, run, evolves⟩ := ih pending h
        exact ⟨ev, run, evolves.imp (fun _ => rfl)⟩) pending h) pending loop result
    cases done with
    | false =>
      cases h
      exact ⟨ev, .stopped loop ordinary deps, evolves.imp (fun _ => trivial)⟩
    | true =>
      dsimp only at h
      rcases phases : runPhases env opts iface lifname true upPhases w₁ with ⟨finished, w₂⟩
      obtain ⟨last, counts, step, outcome⟩ := evolves_runPhases (lifname = iface)
        evolves.pending phases
      have whole := (evolves.imp (fun _ => trivial)).trans step
      rw [phases] at h
      cases finished with
      | false =>
        cases h
        exact ⟨ev ++ last, by rw [counts]; exact .failed loop ordinary deps outcome, whole⟩
      | true =>
        cases h
        obtain rfl : last = succeeded iface lifname upPhases := outcome
        refine ⟨_, ?_, by simpa using whole.trans (evolves_refIf whole.pending lifname iface)⟩
        rw [count_refIf, counts]
        exact .done loop ordinary deps

theorem lifLifecycleRun_down {w w' : World} (pending : w.Pending path)
    (h : lifLifecycleRun env opts fuel w iface lifname false = some (ok, w')) :
    Follows Down opts (lifname = iface) path (.run iface lifname) w ok w' := by
  induction fuel generalizing w path iface lifname ok w' with
  | zero => cases h
  | succ fuel ih =>
    unfold lifLifecycleRun at h
    rw [pending iface] at h
    by_cases loop : iface ∈ path
    · simp only [loop, decide_true, if_true] at h
      cases h
      exact ⟨[], .pending loop, evolves_refl pending⟩
    simp only [loop, decide_false, Bool.false_eq_true, if_false] at h
    by_cases template : (w.collection.iface iface).isTemplate = true
    · simp only [template, if_true] at h
      cases h
      exact ⟨[], .template loop template, evolves_refl pending⟩
    have ordinary : (w.collection.graph opts).template iface = false := Bool.eq_false_of_not_eq_true template
    simp only [template] at h
    rcases phases : runPhases env opts iface lifname false downPhases w with ⟨finished, w₁⟩
    obtain ⟨first, counts, step, outcome⟩ := evolves_runPhases (lifname = iface) pending phases
    rw [phases] at h
    cases finished with
    | false =>
      cases h
      exact ⟨first, by rw [counts]; exact .failed loop ordinary outcome, step⟩
    | true =>
      dsimp only at h
      obtain rfl : first = succeeded iface lifname downPhases := outcome
      rcases result : handleDependents (fun w iface => lifLifecycleRun env opts fuel w iface
          (w.collection.iface iface).ifname false) opts iface w₁ false with _ | ⟨done, w₂⟩ <;>
        simp only [result] at h
      · cases h
      obtain ⟨ev, deps, evolves⟩ := handleDependents_follows (R := Down) (fun _ _ _ => .nil)
        (fun path tokens w ok w' pending h => dependentsLoop_down (fun w token ok w' pending h => by
          rw [Collection.iface_ifname] at h
          obtain ⟨ev, run, evolves⟩ := ih pending h
          exact ⟨ev, run, evolves.imp (fun _ => rfl)⟩) pending h) step.pending loop result
      rw [step.graph opts, counts] at deps
      have whole := step.trans (evolves.imp (fun _ => trivial))
      cases done with
      | false =>
        cases h
        exact ⟨_, .stopped loop ordinary deps, whole⟩
      | true =>
        cases h
        refine ⟨_, ?_, by simpa using whole.trans (evolves_unrefIf whole.pending lifname iface)⟩
        rw [count_unrefIf]
        exact .done loop ordinary deps

end Ifupdown
