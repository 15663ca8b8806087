import Ifupdown.Model.LineCalls

/-! What `lif_fgetline` makes of hash signs behind backslashes. -/
namespace Ifupdown

def escapeHashes (text : Str) : Str := text.flatMap fun c => if c = 35 then [92, 35] else [c]

section
variable {text : Str} {lines : List (List Str)} {pieces : List Str}

/-- An escaped hash sign is dropped together with its backslash. -/
theorem run_escaped (plain : ∀ c ∈ text, c ≠ 10 ∧ c ≠ 13 ∧ c ≠ 92) : Scan.run ⟨lines, pieces, .text⟩ (escapeHashes text) =
    ⟨lines, pieces ++ (text.filter fun c => c != 35).map fun c => [c], .text⟩ := by
  induction text generalizing pieces with
  | nil => simp [escapeHashes, Scan.run]
  | cons c text ih =>
    obtain ⟨⟨newline, cr, escape⟩, later⟩ := List.forall_mem_cons.mp plain
    have split_ : escapeHashes (c :: text) = (if c = 35 then [92, 35] else [c]) ++ escapeHashes text := List.flatMap_cons
    rw [split_, run_append]
    by_cases hash : c = 35
    · subst hash
      have dropped : Scan.run ⟨lines, pieces, .text⟩ [92, 35] = ⟨lines, pieces, .text⟩ := rfl
      rw [if_pos rfl, dropped, ih later, List.filter_cons_of_neg (by simp)]
    · have stored : Scan.run ⟨lines, pieces, .text⟩ [c] = ⟨lines, pieces ++ [[c]], .text⟩ := by
        simp [Scan.run, Scan.step, scanAct, newline, cr, escape, hash]
      rw [if_neg hash, stored, ih later, List.filter_cons_of_pos (by simpa using hash), List.map_cons, List.append_assoc]
      rfl

theorem escaped_read {size : Nat} (enough : 2 < size) (buf : Buffer) (stream : Str)
    (plain : ∀ c ∈ text, c ≠ 0 ∧ c ≠ 10 ∧ c ≠ 13 ∧ c ≠ 92) (short : text.length + 2 ≤ size) : ∃ line rest,
    lifFgetline buf size (escapeHashes text ++ 10 :: stream) = (some line, rest) ∧ strAt line 0 = text.filter fun c => c != 35 := by
  have inside : (text.filter fun c => c != 35).length ≤ text.length := List.length_filter_le ..
  have bytes : ∀ c ∈ text.filter (fun c => c != 35), c ≠ 0 ∧ c ≠ 10 ∧ c ≠ 13 := fun c member =>
    let own := plain c (List.mem_filter.mp member).1
    ⟨own.1, own.2.1, own.2.2.1⟩
  have lines : logicalLines (escapeHashes text ++ 10 :: stream) =
      ((text.filter fun c => c != 35).map (fun c => [c]) ++ [[10]]) :: logicalLines stream := by
    rw [List.append_cons]
    refine logicalLines_finished ?_ (Or.inl rfl)
    rw [run_append, run_escaped fun c member => (plain c member).2]
    rfl
  generalize text.filter (fun c => c != 35) = kept at inside bytes lines ⊢
  have flat : (kept.map fun c => [c]).flatten = kept := by rw [← List.flatMap_def, List.flatMap_singleton']
  have zeros : ∀ c ∈ kept, c ≠ 0 := fun c member => (bytes c member).1
  rcases lifFgetline_returns enough buf (escapeHashes text ++ 10 :: stream) with ⟨-, none⟩ | ⟨line, rest, read, returns⟩
  · rw [lines] at none
    cases none
  refine ⟨line, rest, read, ?_⟩
  cases returns with
  | @whole pieces same _ text_ =>
    rw [lines, List.cons.injEq] at same
    have last : kept.getLast? ≠ some 13 := fun cr => (bytes 13 (List.mem_of_getLast? cr)).2.2 rfl
    rw [text_, ← same.1]
    unfold lineText
    rw [List.flatten_append, flat, List.flatten_singleton, terminate_newline last]
    exact strAt_append [] kept [0] rfl zeros
  | @front pieces more later same _ some_ filled text_ =>
    -- the buffer is full with the text, and the newline is left for the next call
    have whole : pieces.flatten = kept := by
      rw [lines, List.cons.injEq] at same
      obtain ⟨init, last, rfl⟩ := (List.eq_nil_or_concat more).resolve_left some_
      rw [List.concat_eq_append, ← List.append_assoc] at same
      have front := congrArg List.flatten (List.append_inj_left' same.1 rfl)
      rw [flat, List.flatten_append] at front
      have sizes := congrArg List.length front
      rw [List.length_append] at sizes
      have none : init.flatten = [] := List.length_eq_zero_iff.mp (by omega)
      rw [front, none, List.append_nil]
    have last : kept.getLast? ≠ some 10 := fun newline => (bytes 10 (List.mem_of_getLast? newline)).2.1 rfl
    rw [text_]
    unfold lineText
    rw [whole, terminate_open last]
    exact strAt_append [] kept [] rfl zeros

end

/-- The text that was escaped is read back just if it has no hash sign. -/
theorem hash_escaped (size : Nat) (buf : Buffer) (text stream : Str) (plain : ∀ c ∈ text, c ≠ 0 ∧ c ≠ 10 ∧ c ≠ 13 ∧ c ≠ 92)
    (short : text.length + 2 ≤ size) :
    (∃ line rest, lifFgetline buf size (escapeHashes text ++ 10 :: stream) = (some line, rest) ∧ strAt line 0 = text) ↔ 35 ∉ text := by
  have same : (text.filter fun c => c != 35) = text ↔ 35 ∉ text := by
    rw [List.filter_eq_self]
    constructor
    · intro all member
      exact absurd (all 35 member) (by decide)
    · intro none c member
      simpa using ne_of_mem_of_not_mem member none
  by_cases enough : 2 < size
  · obtain ⟨line, rest, read, returned⟩ := escaped_read enough buf stream plain short
    rw [read, ← same, ← returned]
    simp
  · -- a buffer without room is returned empty
    obtain rfl : text = [] := List.length_eq_zero_iff.mp (by omega)
    obtain rfl : size = 2 := by
      rw [List.length_nil] at short
      omega
    have read : lifFgetline buf 2 (escapeHashes [] ++ 10 :: stream) = (some (terminate [] ++ buf.drop 1), 10 :: stream) := by
      have loop : fgetlineLoop 0 false false [] (10 :: stream) = ([], false, 10 :: stream) := by
        unfold fgetlineLoop
        simp
      have text : escapeHashes [] ++ 10 :: stream = 10 :: stream := rfl
      unfold lifFgetline
      rw [text, Nat.sub_self, loop]
      rfl
    refine iff_of_true ⟨_, _, read, ?_⟩ List.not_mem_nil
    rw [strAt_stored]
    rfl

theorem hash_escaped_key : ∃ line rest,
    lifFgetline [] 4096 (escapeHashes (str "psk ab") ++ 10 :: []) = (some line, rest) ∧ strAt line 0 = str "psk ab" := by
  have plain : ∀ c ∈ str "psk ab", c ≠ 0 ∧ c ≠ 10 ∧ c ≠ 13 ∧ c ≠ 92 := by decide +kernel
  exact (hash_escaped 4096 [] (str "psk ab") [] plain (by decide)).mpr (by decide)

theorem hash_escaped_hash :
    ¬ ∀ (size : Nat) (buf : Buffer) (text stream : Str), (∀ c ∈ text, c ≠ 0 ∧ c ≠ 10 ∧ c ≠ 13 ∧ c ≠ 92) →
      text.length + 2 ≤ size →
      ∃ line rest, lifFgetline buf size (escapeHashes text ++ 10 :: stream) = (some line, rest) ∧ strAt line 0 = text := by
  intro claim
  have plain : ∀ c ∈ str "psk a#b", c ≠ 0 ∧ c ≠ 10 ∧ c ≠ 13 ∧ c ≠ 92 := by decide +kernel
  obtain ⟨line, rest, read, returned⟩ := claim 4096 [] (str "psk a#b") [] plain (by decide)
  have dropped : (lifFgetline [] 4096 (escapeHashes (str "psk a#b") ++ 10 :: [])).1.map (strAt · 0) = some (str "psk ab") := by
    decide +kernel
  rw [read, Option.map_some, returned] at dropped
  cases dropped

end Ifupdown
