import Ifupdown.Model.TokenLoops
import Ifupdown.Resolver.Counting

/-! The queries that counting the dependencies of a collection makes, and the texts that they gather. -/
namespace Ifupdown

/-- A query of the executors about `parent`, in the survey that it finds. -/
structure Query where
  survey : Survey
  parent : Str

def Query.iface (q : Query) : LifInterface := q.survey.collection.iface q.parent

section
variable (env : DependEnv) (opts : LifExecuteOpts)

def Query.outputs (q : Query) : Option (List Str) :=
  executorOutputs env opts (buildEnvironment q.iface) q.iface.vars q.survey.asked

def Query.answer (q : Query) : Option (Nat × LifDict VarData) := lifLifecycleQueryDependents env opts q.survey.asked q.iface

def Query.Contained (q : Query) : Prop :=
  ∀ outputs, q.outputs env opts = some outputs → Ifupdown.Contained (suppliedText (requiresText q.iface.vars) outputs)

instance (q : Query) : Decidable (q.Contained env opts) :=
  match printed : q.outputs env opts with
  | none => isTrue fun _ outputs => by rw [printed] at outputs; cases outputs
  | some outputs => decidable_of_iff (Ifupdown.Contained (suppliedText (requiresText q.iface.vars) outputs))
    ⟨fun fits _ same => Option.some.inj (printed.symm.trans same) ▸ fits, fun contained => contained outputs printed⟩

/-- The queries of `count_interface_rdepends` that succeed, from the token loop on; `queries` is the recursive call. -/
def queriesTokens (queries : Survey → Str → Nat → List Query) (count : Survey → Str → Nat → Option (Bool × Survey)) (depth : Nat) :
    List Str → Survey → List Query
  | [], _ => []
  | token :: rest, s =>
    queries (s.find token) token (depth + 1) ++
      match count (s.find token) token (depth + 1) with
      | some (true, s) => queriesTokens queries count depth rest s
      | _ => []

def queriesFrom : Nat → Survey → Str → Nat → List Query
  | 0, _, _, _ => []
  | fuel + 1, s, parent, depth =>
    if s.pending parent = true then []
    else
      match lifLifecycleQueryDependents env opts s.asked (s.collection.iface parent) with
      | none => []
      | some answer =>
        ⟨s, parent⟩ :: queriesTokens (queriesFrom fuel) (countInterfaceRdepends env opts fuel) depth
          ((s.enter parent depth answer).requires parent) (s.enter parent depth answer)

def queriesEntries (fuel : Nat) : Nat → Nat → Survey → List Query
  | 0, _, _ => []
  | rounds + 1, i, s =>
    match s.collection.entries[i]? with
    | none => []
    | some (name, iface) =>
      queriesFrom env opts fuel s name iface.rdependsCount ++
        match countInterfaceRdepends env opts fuel s name iface.rdependsCount with
        | some (true, s) => queriesEntries fuel rounds (i + 1) s
        | _ => []

/-- The variables of each interface are what the last query about it has left. -/
def Accounts (s : Survey) (queries : List Query) (s' : Survey) : Prop :=
  ∀ x, (∃ q ∈ queries, q.parent = x ∧ ∃ answer, q.answer env opts = some answer ∧ (s'.collection.iface x).vars = answer.2) ∨
    (∀ q ∈ queries, q.parent ≠ x) ∧ (s'.collection.iface x).vars = (s.collection.iface x).vars

end

theorem settled_blank_end {text : Str} (ends : settled text = true) :
    text = [] ∨ ∃ front c, text = front ++ [c] ∧ isSpace c = true := by
  rcases List.eq_nil_or_concat text with rfl | ⟨front, c, rfl⟩
  · exact Or.inl rfl
  · rw [List.concat_eq_append] at ends ⊢
    refine Or.inr ⟨front, c, rfl, ?_⟩
    rw [settled, List.reverse_append, List.reverse_singleton, List.singleton_append] at ends
    cases back : front.reverse with
    | nil =>
      rw [back] at ends
      cases ends
    | cons d rest =>
      rw [back] at ends
      exact (Bool.and_eq_true_iff.mp ends).1

section
variable {text : Str}

theorem strlcpy_length (size : Nat) : (strlcpy size text).length ≤ size - 1 := by
  rw [strlcpy, List.length_take]
  omega

/-- Where the text is not cut, or is cut behind a name and a blank, the names that are left are names of the text, and
rendered again they fit the buffer. -/
theorem settled_words (condition : Contained text) :
    (∀ name ∈ lifTokens (strlcpy 4096 text), name ∈ lifTokens text) ∧
      (render (lifTokens (strlcpy 4096 text))).length < 4096 := by
  have length := render_length (strlcpy 4096 text)
  have short : (strlcpy 4096 text).length ≤ 4095 := strlcpy_length 4096
  by_cases fits : (strlcpy 4096 text).length < 4095
  · have whole : strlcpy 4096 text = text := by
      rw [strlcpy, List.length_take] at fits
      exact List.take_of_length_le (by omega)
    rw [whole] at length fits ⊢
    exact ⟨fun name member => member, by omega⟩
  · rcases settled_blank_end (condition.resolve_left fits) with empty | ⟨front, c, same, blank⟩
    · rw [empty] at fits
      simp at fits
    · obtain ⟨behind, split⟩ : strlcpy 4096 text <+: text := List.take_prefix _ _
      have cut : lifTokens (strlcpy 4096 text) = lifTokens front := by
        rw [same, lifTokens_append front blank [], lifTokens_nil, List.append_nil]
      have size := congrArg List.length same
      rw [List.length_append, List.length_singleton] at size
      have length := render_length front
      rw [cut]
      refine ⟨fun name member => ?_, by omega⟩
      rw [← split, same, List.append_assoc, List.singleton_append, lifTokens_append front blank behind]
      exact List.mem_append_left _ member

end

section
variable {env : DependEnv} {opts : LifExecuteOpts} {s s' s'' : Survey} {parent token : Str} {depth : Nat} {queries later : List Query}

theorem Query.Contained.names {q : Query} {answer : Nat × LifDict VarData} (contained : q.Contained env opts)
    (query : q.answer env opts = some answer) :
    ∃ outputs, q.outputs env opts = some outputs ∧
      ∀ name ∈ lifTokens (requiresText answer.2), name ∈ lifTokens (requiresText q.iface.vars) ++ outputs.flatMap lifTokens := by
  unfold Query.answer at query
  rw [query_eq] at query
  obtain ⟨outputs, printed, rfl⟩ := Option.map_eq_some_iff.mp query
  refine ⟨outputs, printed, fun name member => ?_⟩
  have short : (strlcpy 4096 (suppliedText (requiresText q.iface.vars) outputs)).length < 4096 :=
    Nat.lt_succ_of_le (strlcpy_length 4096)
  rw [requiresText_store, finalDeps_words short] at member
  rw [← suppliedText_words]
  exact (settled_words (contained outputs printed)).1 name ((keepWords_sublist _).subset member)

theorem accounts_none (same : ∀ x, (s'.collection.iface x).vars = (s.collection.iface x).vars) : Accounts env opts s [] s' :=
  fun x => Or.inr ⟨List.forall_mem_nil _, same x⟩

theorem Accounts.trans (first : Accounts env opts s queries s') (second : Accounts env opts s' later s'') :
    Accounts env opts s (queries ++ later) s'' := by
  intro x
  obtain ⟨q, member, own, last⟩ | ⟨none, same⟩ := second x
  · exact Or.inl ⟨q, List.mem_append_right _ member, own, last⟩
  obtain ⟨q, member, own, answer, query, vars⟩ | ⟨none', same'⟩ := first x
  · exact Or.inl ⟨q, List.mem_append_left _ member, own, answer, query, same.trans vars⟩
  · exact Or.inr ⟨List.forall_mem_append.mpr ⟨none', none⟩, same.trans same'⟩

theorem accounts_find (s : Survey) (token : Str) : Accounts env opts s [] (s.find token) :=
  accounts_none fun x => by rw [Survey.find, iface_collectionFind]

theorem accounts_leave (s : Survey) (parent : Str) : Accounts env opts s [] (s.setPending parent false) :=
  accounts_none fun x => by
    rw [Survey.setPending, iface_setPending]
    split <;> rfl

theorem accounts_enter {answer : Nat × LifDict VarData} (depth : Nat)
    (query : lifLifecycleQueryDependents env opts s.asked (s.collection.iface parent) = some answer) :
    Accounts env opts s [⟨s, parent⟩] (s.enter parent depth answer) := by
  intro x
  rw [Survey.enter, Survey.write, iface_write]
  by_cases own : parent = x
  · rw [if_pos own]
    exact Or.inl ⟨⟨s, parent⟩, List.mem_singleton_self _, own, answer, query, rfl⟩
  · rw [if_neg own]
    exact Or.inr ⟨List.forall_mem_singleton.mpr own, rfl⟩

theorem countTokens_accounts {asks : Survey → Str → Nat → List Query}
    {count : Survey → Str → Nat → Option (Bool × Survey)} {tokens : List Str}
    (counts : ∀ {s s' : Survey} {token : Str}, count s token (depth + 1) = some (true, s') →
      Accounts env opts s (asks s token (depth + 1)) s')
    (h : countTokens count depth tokens s = some (true, s')) : Accounts env opts s (queriesTokens asks count depth tokens s) s' := by
  induction tokens generalizing s with
  | nil =>
    cases h
    exact accounts_none fun _ => rfl
  | cons token rest ih =>
    unfold countTokens at h
    unfold queriesTokens
    rw [show { s with collection := (lifInterfaceCollectionFind s.collection token).2 } = s.find token from rfl] at h
    rcases result : count (s.find token) token (depth + 1) with _ | ⟨_ | _, next⟩
    · rw [result] at h
      cases h
    · rw [result] at h
      cases h
    · rw [result] at h
      exact ((accounts_find s token).trans (counts result)).trans (ih h)

theorem countInterfaceRdepends_accounts {fuel : Nat} (h : countInterfaceRdepends env opts fuel s parent depth = some (true, s')) :
    Accounts env opts s (queriesFrom env opts fuel s parent depth) s' := by
  induction fuel generalizing s s' parent depth with
  | zero => cases h
  | succ fuel ih =>
    unfold queriesFrom
    rcases countInterfaceRdepends_cases h with ⟨pending, -, rfl⟩ | ⟨idle, ⟨-, failed, -⟩ | ⟨answer, last, query, result, rfl⟩⟩
    · rw [if_pos pending]
      exact accounts_none fun _ => rfl
    · cases failed
    · rw [if_neg (by rw [idle]; exact Bool.false_ne_true), query]
      have inside := (accounts_enter depth query).trans (countTokens_accounts ih result)
      simpa using inside.trans (accounts_leave last parent)

/-- All queries of a count that succeeds. -/
theorem countEntries_accounts {fuel rounds i : Nat} (h : countEntries env opts fuel rounds i s = some (true, s')) :
    Accounts env opts s (queriesEntries env opts fuel rounds i s) s' := by
  induction rounds generalizing i s with
  | zero => cases h
  | succ rounds ih =>
    unfold countEntries at h
    unfold queriesEntries
    rcases entry : s.collection.entries[i]? with _ | ⟨name, iface⟩
    · rw [entry] at h
      cases h
      exact accounts_none fun _ => rfl
    rw [entry] at h
    dsimp only at h ⊢
    rcases result : countInterfaceRdepends env opts fuel s name iface.rdependsCount with _ | ⟨_ | _, next⟩
    · rw [result] at h
      cases h
    · rw [result] at h
      cases h
    · rw [result] at h
      exact (countInterfaceRdepends_accounts result).trans (ih h)

end

end Ifupdown
