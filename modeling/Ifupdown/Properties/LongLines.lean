import Ifupdown.Model.LineCalls

/-! Which lines `lif_fgetline` returns whole. -/
namespace Ifupdown

/-- A buffer without room is returned empty forever. -/
theorem lifFgetlines_endless {size : Nat} (small : size ≤ 2) (fuel : Nat) (buf : Buffer) (stream : Str) :
    lifFgetlines size fuel buf stream = .none := by
  have room : size - 2 = 0 := by omega
  induction fuel generalizing buf stream with
  | zero => rfl
  | succ fuel ih =>
    unfold lifFgetlines lifFgetline
    rw [room]
    unfold fgetlineLoop
    cases stream <;> simp [ih]

theorem whole_fits {size fuel : Nat} {buf : Buffer} {stream : Str} (enough : 2 < size)
    (calls : lifFgetlines size fuel buf stream = some ((logicalLines stream).map lineText)) :
    ∀ line ∈ logicalLines stream, Fits (size - 2) line := by
  obtain ⟨lines, read, -, -, equal⟩ := lifFgetlines_calls enough buf stream
    (Nat.lt_of_lt_of_le (Nat.lt_succ_self _) (Nat.le_max_left (stream.length + 1) fuel))
  rw [lifFgetlines_more calls (Nat.le_max_right _ _), Option.some_inj] at read
  refine equal ?_
  rw [← read, List.length_map]

/-- The strings that are returned are the logical lines of the stream just if there is room when the last bytes of each are stored. -/
theorem lines_whole (size : Nat) (buf : Buffer) (stream : Str) :
    (∃ fuel, lifFgetlines size fuel buf stream = some ((logicalLines stream).map lineText)) ↔
      2 < size ∧ ∀ line ∈ logicalLines stream, Fits (size - 2) line := by
  constructor
  · rintro ⟨fuel, calls⟩
    by_cases enough : 2 < size
    · exact ⟨enough, whole_fits enough calls⟩
    · rw [lifFgetlines_endless (by omega)] at calls
      cases calls
  · rintro ⟨enough, fit⟩
    obtain ⟨lines, read, -, whole, -⟩ := lifFgetlines_calls enough buf stream (Nat.lt_succ_self _)
    exact ⟨stream.length + 1, by rw [read, whole fit]⟩

example : lifFgetlines 7 4 [] (str "auto lo\n") = some [str "auto ", str "lo"] := by decide +kernel

theorem run_replicate (n : Nat) {lines : List (List Str)} {pieces : List Str} :
    Scan.run ⟨lines, pieces, .text⟩ (List.replicate n 97) = ⟨lines, pieces ++ List.replicate n [97], .text⟩ := by
  induction n generalizing pieces with
  | zero => simp [Scan.run]
  | succ n ih =>
    have stored : Scan.step ⟨lines, pieces, .text⟩ 97 = ⟨lines, pieces ++ [[97]], .text⟩ := rfl
    rw [List.replicate_succ, List.replicate_succ, run_cons, stored, ih, List.append_assoc]
    rfl

/-- A line of 4095 bytes does not come whole through the buffers of 4096 bytes that all callers have. -/
theorem lines_whole_longLine :
    ¬ ∀ (size : Nat) (buf : Buffer) (stream : Str), ∃ fuel, lifFgetlines size fuel buf stream = some ((logicalLines stream).map lineText) := by
  intro claim
  obtain ⟨fuel, calls⟩ := claim 4096 [] (List.replicate 4095 97 ++ [10])
  have line : List.replicate 4095 [97] ++ [[10]] ∈ logicalLines (List.replicate 4095 97 ++ [10]) := by
    unfold logicalLines
    rw [run_append, run_replicate]
    exact List.mem_append_left _ List.mem_cons_self
  have fits := whole_fits (by omega) calls _ line
  unfold Fits at fits
  rw [List.dropLast_concat, List.flatten_replicate_singleton, List.length_replicate] at fits
  omega

end Ifupdown
