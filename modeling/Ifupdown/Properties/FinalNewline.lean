import Ifupdown.Model.LineCalls

/-! What a newline at the end of a stream changes. -/
namespace Ifupdown

/-- The last line of the stream has text, which neither a comment nor an escaped carriage return ends. -/
def EndsInText (stream : Str) : Prop :=
  (Scan.run {} stream).mode ≠ .comment ∧ ∃ c ∈ (Scan.run {} stream).pieces.flatten.getLast?, c ≠ 10

section
variable {stream : Str} {scan : Scan} {c : UInt8}

theorem scanAct_last {mode : ScanMode} (newline : c ≠ 10) (cr : c ≠ 13) (escape : c ≠ 92) :
    scanAct mode c = .skip .text ∨ scanAct mode c = .skip .joined ∨ scanAct mode c = .skip .comment ∨
      ∃ piece, scanAct mode c = .store piece .text := by
  cases mode <;> simp only [scanAct, newline, cr, escape, if_false, and_false]
  all_goals repeat' split
  all_goals simp

/-- Behind a byte that is no newline, carriage return or backslash, the next newline ends the line. -/
theorem step_newline (newline : c ≠ 10) (cr : c ≠ 13) (escape : c ≠ 92) :
    (scan.step c).step 10 = ⟨(scan.step c).lines ++ [(scan.step c).pieces ++ [[10]]], [], .text⟩ := by
  rcases @scanAct_last c scan.mode newline cr escape with act | act | act | ⟨piece, act⟩ <;>
    (unfold Scan.step; rw [act]; rfl)

theorem run_newline (newline : stream.getLast? ≠ some 10) (cr : stream.getLast? ≠ some 13) (escape : stream.getLast? ≠ some 92)
    (filled : stream ≠ []) : logicalLines (stream ++ [10]) =
      (Scan.run {} stream).lines ++ [(Scan.run {} stream).pieces ++ [[10]]] := by
  obtain ⟨init, last, rfl⟩ := (List.eq_nil_or_concat stream).resolve_left filled
  rw [List.concat_eq_append, List.getLast?_concat, Ne, Option.some_inj] at newline cr escape
  rw [List.concat_eq_append]
  unfold logicalLines
  have moves : Scan.run {} (init ++ [last] ++ [10]) = ((Scan.run {} init).step last).step 10 := by
    rw [run_append, run_append]
    rfl
  have here : Scan.run {} (init ++ [last]) = (Scan.run {} init).step last := run_append ..
  rw [moves, here, step_newline newline cr escape]
  unfold Scan.last
  simp

end

/-- The newline at the end changes nothing just if the last line has text, which neither a comment nor an escaped carriage
return ends. -/
theorem final_newline (size : Nat) (buf : Buffer) (stream : Str) (zeros : 0 ∉ stream) (filled : stream ≠ [])
    (ends : stream.getLast? ≠ some 10 ∧ stream.getLast? ≠ some 13 ∧ stream.getLast? ≠ some 92)
    (short : ∀ line ∈ logicalLines (stream ++ [10]), line.flatten.length ≤ size - 2) :
    lifFgetlines size (stream.length + 2) buf stream = lifFgetlines size (stream.length + 2) buf (stream ++ [10]) ↔
      EndsInText stream := by
  have newline := run_newline ends.1 ends.2.1 ends.2.2 filled
  have bytes := @run_bytes {} stream zeros (by simp)
  have solid := (@run_filled _ stream init_filled).2
  have fit' : ∀ line ∈ logicalLines (stream ++ [10]), Fits (size - 2) line :=
    fun line member => fits_length (logicalLines_filled member) (short line member)
  have last : (Scan.run {} stream).pieces.flatten.length < size - 2 := by
    have closed := short ((Scan.run {} stream).pieces ++ [[10]]) (by rw [newline]; simp)
    rw [List.flatten_append, List.flatten_singleton, List.length_append, List.length_singleton] at closed
    omega
  have fit : ∀ line ∈ logicalLines stream, Fits (size - 2) line := by
    unfold logicalLines
    rw [List.forall_mem_append]
    constructor
    · intro line member
      rw [newline] at fit'
      exact fit' line (List.mem_append_left _ member)
    · unfold Scan.last
      intro line member
      split at member
      · rw [List.mem_singleton.mp member]
        exact fits_store _ last
      split at member
      · cases member
      · rw [List.mem_singleton.mp member]
        exact fits_short last
  have enough : 2 < size := by omega
  obtain ⟨lines, calls, -, whole, -⟩ := lifFgetlines_calls enough buf stream (show _ < stream.length + 2 by omega)
  obtain ⟨lines', calls', -, whole', -⟩ := lifFgetlines_calls enough buf (stream ++ [10])
    (show _ < stream.length + 2 by rw [List.length_append, List.length_singleton]; omega)
  rw [calls, calls', Option.some_inj, whole fit, whole' fit', newline]
  unfold logicalLines
  rw [List.map_append, List.map_append, List.append_cancel_left_eq]
  exact last_text bytes solid

theorem final_newline_auto : lifFgetlines 4096 ((str "auto lo").length + 2) [] (str "auto lo") =
    lifFgetlines 4096 ((str "auto lo").length + 2) [] (str "auto lo" ++ [10]) := by
  have short : ∀ line ∈ logicalLines (str "auto lo" ++ [10]), line.flatten.length ≤ 4096 - 2 := by decide +kernel
  have mode : (Scan.run {} (str "auto lo")).mode ≠ .comment := by decide +kernel
  have last : 111 ∈ (Scan.run {} (str "auto lo")).pieces.flatten.getLast? := by decide +kernel
  exact (final_newline 4096 [] (str "auto lo") (by decide +kernel) (by decide +kernel) (by decide +kernel) short).mpr
    ⟨mode, 111, last, by decide⟩

theorem final_newline_comment :
    ¬ ∀ (size : Nat) (buf : Buffer) (stream : Str), 0 ∉ stream → stream ≠ [] →
      (stream.getLast? ≠ some 10 ∧ stream.getLast? ≠ some 13 ∧ stream.getLast? ≠ some 92) →
      (∀ line ∈ logicalLines (stream ++ [10]), line.flatten.length ≤ size - 2) →
      lifFgetlines size (stream.length + 2) buf stream = lifFgetlines size (stream.length + 2) buf (stream ++ [10]) := by
  intro claim
  have short : ∀ line ∈ logicalLines (str "auto lo #" ++ [10]), line.flatten.length ≤ 4096 - 2 := by decide +kernel
  have same := claim 4096 [] (str "auto lo #") (by decide +kernel) (by decide +kernel) (by decide +kernel) short
  have left : lifFgetlines 4096 ((str "auto lo #").length + 2) [] (str "auto lo #") = some [str "auto lo " ++ [255]] := by
    decide +kernel
  have closed : lifFgetlines 4096 ((str "auto lo #").length + 2) [] (str "auto lo #" ++ [10]) = some [str "auto lo "] := by
    decide +kernel
  exact absurd (left.symm.trans (same.trans closed)) (by decide +kernel)

end Ifupdown
