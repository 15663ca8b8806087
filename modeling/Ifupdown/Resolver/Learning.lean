import Ifupdown.Base.Words
import Ifupdown.Model.Rdepends

/-! What an interface requires after its executors have been asked. -/
namespace Ifupdown

variable {env : DependEnv} {opts : LifExecuteOpts} {asked : Nat} {iface : LifInterface} {result : Nat × LifDict VarData}

theorem finalDeps_eq {deps : Str} (short : deps.length < 4096) :
    finalDeps deps = strlcpy 4096 (render (keepWords (lifTokens deps))) := by
  have loop (tokens kept : List Str) (words : ∀ w ∈ tokens, IsWord w)
      (fits : (render kept).length + (render tokens).length ≤ 4096) :
      tokens.foldl (fun final token =>
          if strstr final token then final else strlcat 4096 (strlcat 4096 final token) (str " "))
          (strlcpy 4096 (render kept)) =
        strlcpy 4096 (render (tokens.foldl (fun kept w => if kept.any fun k => strstr k w then kept else kept ++ [w])
          kept)) := by
    induction tokens generalizing kept with
    | nil => rfl
    | cons token rest ih =>
      obtain ⟨word, later⟩ := List.forall_mem_cons.mp words
      rw [render_cons, List.length_append, List.length_append, List.length_singleton] at fits
      have positive := List.length_pos_iff.mpr word.1
      have whole : strlcpy 4096 (render kept) = render kept := List.take_of_length_le (by omega)
      rw [List.foldl_cons, List.foldl_cons, whole, strstr_render word]
      split
      · rw [← whole]
        exact ih kept later (by omega)
      · have first : strlcat 4096 (render kept) token = render kept ++ token := by
          rw [strlcat, List.take_of_length_le (by omega)]
        have fit : (render kept ++ token).length ≤ 4096 - 1 := by
          rw [List.length_append]
          omega
        have added : strlcat 4096 (strlcat 4096 (render kept) token) (str " ") =
            strlcpy 4096 (render (kept ++ [token])) := by
          rw [first, strlcat, render_snoc, strlcpy, List.take_append, List.take_of_length_le fit]
          rfl
        rw [added]
        refine ih (kept ++ [token]) later ?_
        rw [render_snoc, List.length_append, List.length_append, List.length_singleton]
        omega
  have length := render_length deps
  exact loop (lifTokens deps) [] (lifTokens_words deps) (by
    rw [render, List.flatMap_nil, List.length_nil]
    omega)

/-- The stored text has the words that are kept, as they are, and fits the buffer it is read into. -/
theorem finalDeps_tokens {deps : Str} (short : deps.length < 4096) :
    lifTokens (strlcpy 4096 (finalDeps deps)) = keepWords (lifTokens deps) := by
  have kept := keepWords_sublist (lifTokens deps)
  have solid : ∀ w ∈ keepWords (lifTokens deps), IsWord w := fun w member => lifTokens_words deps w (kept.subset member)
  have length := render_length deps
  have less := render_length_le kept
  rw [finalDeps_eq short, strlcpy, strlcpy, List.take_take, Nat.min_self, lifTokens_take_render solid (by omega)]

theorem finalDeps_words {deps : Str} (short : deps.length < 4096) :
    lifTokens (finalDeps deps) = keepWords (lifTokens deps) := by
  have whole : strlcpy 4096 (finalDeps deps) = finalDeps deps := by
    rw [finalDeps_eq short, strlcpy, strlcpy, List.take_take, Nat.min_self]
  rw [← finalDeps_tokens short, whole]

/-- What the executors of an interface print, or `none` where one of them fails. -/
def executorOutputs (env : DependEnv) (opts : LifExecuteOpts) (envp : Environment) :
    LifDict VarData → Nat → Option (List Str)
  | [], _ => some []
  | entry :: rest, asked =>
    let pathbuf := strlcpy 4096 (opts.executorPath ++ str "/" ++ entry.2.value)
    if entry.1 = str "use" ∧ env.executable pathbuf = true then
      (env.answer asked pathbuf envp).bind fun resbuf =>
        (executorOutputs env opts envp rest (asked + 1)).map fun outputs => resbuf :: outputs
    else executorOutputs env opts envp rest asked

/-- A text with outputs behind it, and a blank before each that is not empty. -/
def suppliedText (text : Str) (outputs : List Str) : Str :=
  text ++ outputs.flatMap fun output => if output = [] then [] else 32 :: output

theorem strlcat_strlcpy (size : Nat) (a b : Str) : strlcat size (strlcpy size a) b = strlcpy size (a ++ b) := by
  rw [strlcat, strlcpy, strlcpy, List.take_append, List.length_take]
  congr 2
  omega

/-- The outputs are appended until the buffer is full. -/
theorem queryDependentsFromExecutors_eq (envp : Environment) (vars : LifDict VarData) (text : Str) :
    queryDependentsFromExecutors env opts envp vars asked (strlcpy 4096 text) =
      (executorOutputs env opts envp vars asked).map fun outputs =>
        (asked + outputs.length, strlcpy 4096 (suppliedText text outputs)) := by
  induction vars generalizing asked text with
  | nil => simp [queryDependentsFromExecutors, executorOutputs, suppliedText]
  | cons entry rest ih =>
    unfold queryDependentsFromExecutors executorOutputs
    dsimp only
    split
    · cases answered : env.answer asked (strlcpy 4096 (opts.executorPath ++ str "/" ++ entry.2.value)) envp with
      | none => rfl
      | some resbuf =>
        rw [Option.bind_some, Option.map_map]
        cases resbuf with
        | nil =>
          dsimp only
          rw [ih text]
          refine Option.map_congr fun outputs _ => ?_
          simp [suppliedText, Nat.add_right_comm, ← Nat.add_assoc]
        | cons c resbuf =>
          have grown : strlcat 4096 (strlcat 4096 (strlcpy 4096 text) (str " ")) (c :: resbuf) =
              strlcpy 4096 (text ++ 32 :: c :: resbuf) := by
            rw [strlcat_strlcpy, strlcat_strlcpy, List.append_assoc]
            rfl
          dsimp only
          rw [grown, ih]
          refine Option.map_congr fun outputs _ => ?_
          simp [suppliedText, Nat.add_right_comm, ← Nat.add_assoc]
    · exact ih text

def requiresText (vars : LifDict VarData) : Str :=
  match lifDictFind vars (str "requires") with
  | some requires => requires.value
  | none => []

theorem requireIfs_text (iface : LifInterface) : requireIfs iface = lifTokens (strlcpy 4096 (requiresText iface.vars)) := by
  unfold requireIfs requiresText
  split <;> rename_i found <;> rw [found]
  rfl

/-- What `lif_lifecycle_query_dependents` does with the merged text. -/
def storeRequires (vars : LifDict VarData) (text : Str) : LifDict VarData :=
  if (lifDictFind vars (str "requires")).isSome then lifDictWrite vars (str "requires") (fun _ => .text text)
  else if text = [] then vars
  else lifDictAdd vars (str "requires") (.text text)

@[simp] theorem requiresText_store (vars : LifDict VarData) (text : Str) : requiresText (storeRequires vars text) = text := by
  unfold storeRequires
  cases found : lifDictFind vars (str "requires") with
  | some requires => simp [requiresText, lifDictFind_write, found, VarData.value]
  | none =>
    rw [if_neg (by simp)]
    split
    · rename_i empty
      rw [requiresText, found, empty]
    · simp [requiresText, lifDictFind_add, found, VarData.value]

theorem storeRequires_again (vars : LifDict VarData) (text : Str) :
    storeRequires (storeRequires vars text) text = storeRequires vars text := by
  have stored : lifDictFind (storeRequires vars text) (str "requires") = some (.text text) ∨
      storeRequires vars text = vars := by
    unfold storeRequires
    cases found : lifDictFind vars (str "requires") with
    | some requires => simp [lifDictFind_write, found]
    | none =>
      rw [if_neg (by simp)]
      split
      · exact Or.inr rfl
      · simp [lifDictFind_add, found]
  rcases stored with found | same
  · rw [storeRequires, found, Option.isSome_some, if_pos rfl, lifDictWrite_same found]
  · rw [same, same]

/-- A query stores the merged names of the old value and of what the executors print. -/
theorem query_eq : lifLifecycleQueryDependents env opts asked iface =
    (executorOutputs env opts (buildEnvironment iface) iface.vars asked).map fun outputs =>
      (asked + outputs.length,
        storeRequires iface.vars (finalDeps (strlcpy 4096 (suppliedText (requiresText iface.vars) outputs)))) := by
  unfold lifLifecycleQueryDependents storeRequires
  cases found : lifDictFind iface.vars (str "requires") with
  | some requires =>
    have start : requiresText iface.vars = requires.value := by rw [requiresText, found]
    dsimp only
    rw [queryDependentsFromExecutors_eq, start]
    cases executorOutputs env opts (buildEnvironment iface) iface.vars asked <;> rfl
  | none =>
    have start : requiresText iface.vars = [] := by rw [requiresText, found]
    have asking : queryDependentsFromExecutors env opts (buildEnvironment iface) iface.vars asked [] = _ :=
      queryDependentsFromExecutors_eq (buildEnvironment iface) iface.vars []
    dsimp only
    rw [asking, start]
    cases executorOutputs env opts (buildEnvironment iface) iface.vars asked <;> rfl

theorem suppliedText_cons (text output : Str) (outputs : List Str) :
    suppliedText text (output :: outputs) = suppliedText (text ++ if output = [] then [] else 32 :: output) outputs := by
  simp [suppliedText]

theorem suppliedText_words (text : Str) (outputs : List Str) :
    lifTokens (suppliedText text outputs) = lifTokens text ++ outputs.flatMap lifTokens := by
  induction outputs generalizing text with
  | nil => simp [suppliedText]
  | cons output outputs ih =>
    rw [suppliedText_cons, ih, List.flatMap_cons, ← List.append_assoc]
    split
    · rename_i empty
      rw [empty, lifTokens_nil, List.append_nil, List.append_nil]
    · rw [lifTokens_append text (by decide) output]

theorem suppliedText_behind (text : Str) (outputs : List Str) :
    ∃ more, suppliedText text outputs = text ++ more ∧ (more = [] ∨ ∃ rest, more = 32 :: rest) := by
  induction outputs with
  | nil => exact ⟨[], by simp [suppliedText], Or.inl rfl⟩
  | cons output outputs ih =>
    obtain ⟨more, same, shape⟩ := ih
    have same' : outputs.flatMap (fun output => if output = [] then [] else 32 :: output) = more := by
      rw [suppliedText, List.append_right_inj] at same
      exact same
    rw [suppliedText, List.flatMap_cons, same']
    split
    · exact ⟨more, rfl, shape⟩
    · exact ⟨_, rfl, Or.inr ⟨output ++ more, rfl⟩⟩

theorem strlcpy_behind (size : Nat) (text : Str) {more : Str} (shape : more = [] ∨ ∃ rest, more = 32 :: rest) :
    ∃ rest, rest <+: more.drop 1 ∧
      lifTokens (strlcpy size (text ++ more)) = lifTokens (strlcpy size text) ++ lifTokens rest := by
  rw [strlcpy, strlcpy, List.take_append]
  rcases shape with rfl | ⟨rest, rfl⟩
  · exact ⟨[], List.nil_prefix, by simp⟩
  · cases size - 1 - text.length with
    | zero => exact ⟨[], List.nil_prefix, by simp⟩
    | succ room =>
      rw [List.take_succ_cons, lifTokens_append _ (by decide)]
      exact ⟨rest.take room, List.take_prefix room rest, rfl⟩

theorem executorOutputs_silent {envp : Environment} {vars : LifDict VarData}
    (silent : ∀ path, env.executable path = false) : executorOutputs env opts envp vars asked = some [] := by
  induction vars generalizing asked with
  | nil => rfl
  | cons entry rest ih =>
    unfold executorOutputs
    dsimp only
    rw [if_neg (by simp [silent])]
    exact ih

theorem executorOutputs_answers {envp : Environment} {vars : LifDict VarData} {outputs : List Str}
    (h : executorOutputs env opts envp vars asked = some outputs) :
    ∀ output ∈ outputs, ∃ n path, env.answer n path envp = some output := by
  induction vars generalizing asked outputs with
  | nil =>
    cases h
    simp
  | cons entry rest ih =>
    unfold executorOutputs at h
    dsimp only at h
    split at h
    · obtain ⟨resbuf, answer, h⟩ := Option.bind_eq_some_iff.mp h
      obtain ⟨more, printed, rfl⟩ := Option.map_eq_some_iff.mp h
      exact List.forall_mem_cons.mpr ⟨⟨_, _, answer⟩, ih printed⟩
    · exact ih h

/-- A query puts what is supplied behind the names that the interface requires, as far as the buffer reaches. -/
theorem query_supplied (h : lifLifecycleQueryDependents env opts asked iface = some result) :
    ∃ outputs more rest, executorOutputs env opts (buildEnvironment iface) iface.vars asked = some outputs ∧
      lifTokens more = outputs.flatMap lifTokens ∧ rest <+: more ∧
      requireIfs { iface with vars := result.2 } = keepWords (requireIfs iface ++ lifTokens rest) := by
  rw [query_eq] at h
  obtain ⟨outputs, printed, rfl⟩ := Option.map_eq_some_iff.mp h
  obtain ⟨more, supplied, shape⟩ := suppliedText_behind (requiresText iface.vars) outputs
  obtain ⟨rest, front, words⟩ := strlcpy_behind 4096 (requiresText iface.vars) shape
  have whole : lifTokens more = outputs.flatMap lifTokens := by
    have alone : suppliedText [] outputs = more := by
      rw [suppliedText, List.append_right_inj] at supplied
      rw [suppliedText, List.nil_append, supplied]
    rw [← alone, suppliedText_words, lifTokens_nil, List.nil_append]
  refine ⟨outputs, more.drop 1, rest, printed, ?_, front, ?_⟩
  · rw [← whole]
    rcases shape with rfl | ⟨behind, rfl⟩
    · rfl
    · exact (lifTokens_blank (by decide) behind).symm
  · rw [requireIfs_text, requireIfs_text, requiresText_store, finalDeps_tokens (by rw [strlcpy, List.length_take]; omega),
      supplied, words]

theorem query_requires (h : lifLifecycleQueryDependents env opts asked iface = some result) :
    ∃ more, requireIfs { iface with vars := result.2 } = keepWords (requireIfs iface ++ more) ∧
      ((∀ path, env.executable path = false) → more = []) := by
  obtain ⟨outputs, more, rest, printed, words, front, merged⟩ := query_supplied h
  refine ⟨lifTokens rest, merged, fun silent => ?_⟩
  rw [executorOutputs_silent silent, Option.some_inj] at printed
  subst printed
  obtain ⟨behind, rfl⟩ := front
  refine List.eq_nil_iff_forall_not_mem.mpr fun w member => ?_
  have cut := lifTokens_take (rest ++ behind) rest.length w (by rwa [List.take_left])
  rw [words] at cut
  obtain ⟨v, inside, -⟩ := cut
  cases inside

theorem query_names (h : lifLifecycleQueryDependents env opts asked iface = some result) :
    ∀ d ∈ requireIfs { iface with vars := result.2 }, d ∈ requireIfs iface ∨
      ∃ n path output, env.answer n path (buildEnvironment iface) = some output ∧ ∃ w ∈ lifTokens output, d <+: w := by
  obtain ⟨outputs, more, rest, printed, words, front, merged⟩ := query_supplied h
  intro d member
  rw [merged] at member
  refine (List.mem_append.mp ((keepWords_sublist _).subset member)).imp_right fun new => ?_
  obtain ⟨behind, rfl⟩ := front
  obtain ⟨w, inside, piece⟩ := lifTokens_take (rest ++ behind) rest.length d (by rwa [List.take_left])
  rw [words] at inside
  obtain ⟨output, given, inside⟩ := List.mem_flatMap.mp inside
  obtain ⟨n, path, answer⟩ := executorOutputs_answers printed output given
  exact ⟨n, path, output, answer, w, inside, piece⟩

end Ifupdown
