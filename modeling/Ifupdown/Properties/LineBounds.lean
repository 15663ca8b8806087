import Ifupdown.Parser.LineStores

/-! `lif_fgetline` stays inside of its buffer. -/
namespace Ifupdown

open Cells

theorem terminate_last (line : Str) : (terminate line)[line.length]? = some 0 := by
  have back : (terminate line).dropLast.length = line.length := by
    rw [List.length_dropLast, terminate_length, Nat.add_sub_cancel]
  rw [← terminate_zero, List.getElem?_append_right (Nat.le_of_eq back), back, Nat.sub_self]
  rfl

/-- With any stream the function ends after a round for each byte at most. All its writes are inside of the buffer, and a
line that it returns has a NUL behind the bytes that are stored. -/
theorem fgetline_inside (ferror : Bool) {fuel size : Nat} {buf : Buffer} {stream : Str} (room : 3 ≤ size) (whole : buf.length = size)
    (enough : stream.length ≤ fuel) :
    ∃ returned v, lifFgetlineAt ferror fuel buf size stream = some (returned, v) ∧
      v.line.length = size ∧ v.s < size ∧ (∀ p, v.s < p → v.line[p]? = buf[p]?) ∧
      (returned = true → v.line[v.s]? = some 0) := by
  have reads := lifFgetlineAt_reads ferror (Nat.le_of_succ_le room) whole enough
  revert reads
  obtain ⟨text, eof, rest⟩ := fgetlineLoop (size - 2) false false [] stream
  dsimp only
  rintro ⟨v, ran, s, inside, -, stored⟩
  have filled : (terminate text).length = text.length + 1 := terminate_length text
  refine ⟨_, v, ran, ?_⟩
  rw [stored, s]
  cases null : eof && (text.isEmpty || ferror) with
  | true =>
    rw [if_pos rfl]
    refine ⟨(overlay_length (by omega)).trans whole, inside, fun p behind => overlay_behind (by omega), fun h => nomatch h⟩
  | false =>
    rw [if_neg Bool.false_ne_true]
    refine ⟨(overlay_length (by omega)).trans whole, inside, fun p behind => overlay_behind (by omega), fun _ => ?_⟩
    rw [overlay_at (by omega), terminate_last]

/-- A backslash and the byte behind it are stored together when there is no room but for them. -/
theorem fgetline_inside_full : ∃ returned v, lifFgetlineAt false 2 [1, 1, 1] 3 (str "\\a") = some (returned, v) ∧
    v.line.length = 3 ∧ v.s < 3 ∧ (∀ p, v.s < p → v.line[p]? = [1, 1, 1][p]?) ∧ (returned = true → v.line[v.s]? = some 0) :=
  fgetline_inside false (by decide) rfl (by decide)

example : (lifFgetlineAt false 2 [1, 1, 1] 3 (str "\\a")).map (fun result => (result.1, result.2.line)) = some (true, [92, 97, 0]) := by
  decide

end Ifupdown
