import Ifupdown.Properties.QueryAgain
import Ifupdown.Resolver.Queries

/-! Lists of dependencies that do not fit the buffers of lifecycle.c. -/
namespace Ifupdown

section
variable {text : Str}

theorem while_reads (plain : 0 ∉ text) :
    (∀ read ∈ whileTokens 4097 (zeroed 4096 (strlcpy 4096 text)) 0, read.2 < 4096) ↔
      (strlcpy 4096 text).length < 4095 ∨ settled (strlcpy 4096 text) = true := by
  have short : (strlcpy 4096 text).length ≤ 4095 := strlcpy_length 4096
  have inside : ∀ c ∈ strlcpy 4096 text, c ≠ 0 := fun c member zero => plain (zero ▸ List.mem_of_mem_take member)
  have scans := whileTokens_scans [] (strlcpy 4096 text) (4096 - (strlcpy 4096 text).length) inside (Or.inr (by omega))
    (show _ < 4097 by omega)
  refine (scans.reads 4096).trans ?_
  rw [List.nil_append]
  split
  · rename_i blank
    simp only [blank, or_true, iff_true]
    omega
  · rename_i open_
    simp only [open_, or_false, Bool.false_eq_true]
    omega

theorem for_reads (plain : 0 ∉ text) :
    (∀ read ∈ forTokens 4097 (zeroed 4096 (strlcpy 4096 text)) 0, read.2 < 4096) ↔
      (strlcpy 4096 text).length < 4095 ∨ endsInWord (strlcpy 4096 text) = false := by
  have short : (strlcpy 4096 text).length ≤ 4095 := strlcpy_length 4096
  have inside : ∀ c ∈ strlcpy 4096 text, c ≠ 0 := fun c member zero => plain (zero ▸ List.mem_of_mem_take member)
  have scans := forTokens_scans [] (strlcpy 4096 text) (4096 - (strlcpy 4096 text).length) inside (Or.inr (by omega))
    (show _ < 4097 by omega)
  refine (scans.reads 4096).trans ?_
  rw [List.nil_append]
  split
  · rename_i word
    simp only [word, Bool.true_eq_false, or_false]
    omega
  · rename_i blank
    simp only [blank, or_true, iff_true]
    omega

theorem settled_endsInWord (ends : settled text = true) : endsInWord text = false := by
  rcases settled_blank_end ends with rfl | ⟨front, c, rfl, blank⟩
  · rfl
  · simp [endsInWord, blank]

theorem mem_render {words : List Str} {c : UInt8} (inside : c ∈ render words) : c = 32 ∨ ∃ w ∈ words, c ∈ w := by
  obtain ⟨w, member, inside⟩ := List.mem_flatMap.mp inside
  rcases List.mem_append.mp inside with own | blank
  · exact Or.inr ⟨w, member, own⟩
  · exact Or.inl (List.mem_singleton.mp blank)

theorem render_endsInWord (words : List Str) : endsInWord (render words) = false := by
  rcases List.eq_nil_or_concat words with rfl | ⟨front, last, rfl⟩
  · rfl
  · rw [List.concat_eq_append, render_snoc]
    simp [endsInWord, isSpace]

end

/-- The names that are stored are supplied ones, and no loop reads behind its buffer, just if the text of all of them
ends before the last byte of the buffer that can be used, or has there a blank right behind a name. -/
theorem lists_safe (env : DependEnv) (opts : LifExecuteOpts) (asked : Nat) (iface : LifInterface)
    (outputs : List Str) (result : Nat × LifDict VarData)
    (plain : 0 ∉ suppliedText (requiresText iface.vars) outputs)
    (printed : executorOutputs env opts (buildEnvironment iface) iface.vars asked = some outputs)
    (query : lifLifecycleQueryDependents env opts asked iface = some result) :
    let text := strlcpy 4096 (suppliedText (requiresText iface.vars) outputs)
    ((∀ name ∈ lifTokens (requiresText result.2),
        name ∈ lifTokens (requiresText iface.vars) ++ outputs.flatMap lifTokens) ∧
      (∀ read ∈ whileTokens 4097 (zeroed 4096 text) 0, read.2 < 4096) ∧
      ∀ requires ∈ [requiresText iface.vars, requiresText result.2],
        ∀ read ∈ forTokens 4097 (zeroed 4096 (strlcpy 4096 requires)) 0, read.2 < 4096) ↔
      text.length < 4095 ∨ settled text = true := by
  rw [query_eq, printed, Option.map_some, Option.some_inj] at query
  have stored : requiresText result.2 = finalDeps (strlcpy 4096 (suppliedText (requiresText iface.vars) outputs)) := by
    rw [← query, requiresText_store]
  obtain ⟨more, supplied, -⟩ := suppliedText_behind (requiresText iface.vars) outputs
  dsimp only
  rw [while_reads plain, stored, ← suppliedText_words]
  constructor
  · exact fun safe => safe.2.1
  intro condition
  obtain ⟨words, fits⟩ := settled_words condition
  have short : (strlcpy 4096 (suppliedText (requiresText iface.vars) outputs)).length < 4096 :=
    Nat.lt_succ_of_le (strlcpy_length 4096)
  have kept := keepWords_sublist (lifTokens (strlcpy 4096 (suppliedText (requiresText iface.vars) outputs)))
  have less := render_length_le kept
  have whole := finalDeps_eq short
  rw [show strlcpy 4096 (render (keepWords (lifTokens (strlcpy 4096 (suppliedText (requiresText iface.vars) outputs))))) =
    render (keepWords (lifTokens (strlcpy 4096 (suppliedText (requiresText iface.vars) outputs)))) from
    List.take_of_length_le (by omega)] at whole
  refine ⟨fun name member => ?_, condition, fun requires member => ?_⟩
  · rw [finalDeps_words short] at member
    exact words name (kept.subset member)
  rcases List.mem_cons.mp member with rfl | last
  · rw [supplied] at plain condition
    refine (for_reads fun inside => plain (List.mem_append_left _ inside)).mpr ?_
    by_cases room : (requiresText iface.vars).length < 4095
    · exact Or.inl (Nat.lt_of_le_of_lt (List.length_take_le' _ _) room)
    · have same : strlcpy 4096 (requiresText iface.vars ++ more) = strlcpy 4096 (requiresText iface.vars) :=
        List.take_append_of_le_length (by omega)
      rw [same] at condition
      exact condition.imp_right settled_endsInWord
  · rw [List.mem_singleton.mp last, whole]
    refine (for_reads fun inside => ?_).mpr (Or.inr ?_)
    · rcases mem_render inside with blank | ⟨w, member, inside⟩
      · cases blank
      · exact plain (List.mem_of_mem_take (lifTokens_bytes (kept.subset member) inside))
    · rw [strlcpy, List.take_of_length_le (by omega)]
      exact render_endsInWord _

theorem lists_safe_bond :
    (∀ name ∈ lifTokens (requiresText bondOfPorts.queried.vars),
        name ∈ lifTokens (requiresText bondOfPorts.vars) ++ [str "eth10 eth1"].flatMap lifTokens) ∧
      (∀ read ∈ whileTokens 4097
        (zeroed 4096 (strlcpy 4096 (suppliedText (requiresText bondOfPorts.vars) [str "eth10 eth1"]))) 0, read.2 < 4096) ∧
      ∀ requires ∈ [requiresText bondOfPorts.vars, requiresText bondOfPorts.queried.vars],
        ∀ read ∈ forTokens 4097 (zeroed 4096 (strlcpy 4096 requires)) 0, read.2 < 4096 :=
  (lists_safe twoPorts {} 0 bondOfPorts [str "eth10 eth1"] (1, bondOfPorts.queried.vars) (by decide) (by decide)
    (by decide)).mpr (Or.inl (by decide))

def longName : DependEnv where
  executable _ := true
  answer _ _ _ := some (List.replicate 20 98)

/-- An interface with an executor, whose requires value fills a line of the interfaces file. -/
def longRequires : LifInterface :=
  { ifname := str "br0", vars := [(str "use", .text (str "bond")), (str "requires", .text (List.replicate 4084 97))] }

theorem lists_unsafe :
    ¬ ∀ (env : DependEnv) (opts : LifExecuteOpts) (asked : Nat) (iface : LifInterface) (outputs : List Str)
      (result : Nat × LifDict VarData),
      0 ∉ suppliedText (requiresText iface.vars) outputs →
      executorOutputs env opts (buildEnvironment iface) iface.vars asked = some outputs →
      lifLifecycleQueryDependents env opts asked iface = some result →
      (∀ name ∈ lifTokens (requiresText result.2),
        name ∈ lifTokens (requiresText iface.vars) ++ outputs.flatMap lifTokens) ∧
      (∀ read ∈ whileTokens 4097
        (zeroed 4096 (strlcpy 4096 (suppliedText (requiresText iface.vars) outputs))) 0, read.2 < 4096) ∧
      ∀ requires ∈ [requiresText iface.vars, requiresText result.2],
        ∀ read ∈ forTokens 4097 (zeroed 4096 (strlcpy 4096 requires)) 0, read.2 < 4096 := by
  intro claim
  have text : suppliedText (requiresText longRequires.vars) [List.replicate 20 98] =
      List.replicate 4084 97 ++ (32 :: List.replicate 10 98) ++ List.replicate 10 98 := by
    rw [List.append_assoc, List.cons_append, List.replicate_append_replicate]
    rfl
  have cut : strlcpy 4096 (List.replicate 4084 97 ++ (32 :: List.replicate 10 98) ++ List.replicate 10 98) =
      List.replicate 4084 97 ++ (32 :: List.replicate 10 98) :=
    List.take_left' (by rw [List.length_append, List.length_replicate, List.length_cons, List.length_replicate])
  have plain : 0 ∉ suppliedText (requiresText longRequires.vars) [List.replicate 20 98] := by
    rw [text, List.mem_append, List.mem_append, List.mem_cons, List.mem_replicate, List.mem_replicate]
    decide
  have printed : executorOutputs longName {} (buildEnvironment longRequires) longRequires.vars 0 = some [List.replicate 20 98] := rfl
  have query : lifLifecycleQueryDependents longName {} 0 longRequires = _ := query_eq
  rw [printed] at query
  have reads := (while_reads plain).mp (claim longName {} 0 longRequires _ _ plain printed query).2.1
  rw [text, cut] at reads
  rcases reads with short | blank
  · rw [List.length_append, List.length_replicate, List.length_cons, List.length_replicate] at short
    omega
  · rw [settled_append (by decide)] at blank
    revert blank
    decide

end Ifupdown
