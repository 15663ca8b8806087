import Ifupdown.Model.GrowingBuffer

/-! On allocated memory `append_to_buffer` does what `appendToBuffer` does with the text. -/
namespace Ifupdown

open Cells

/-- The memory holds the text with a NUL behind it, where `end` points to. -/
structure GrowingBuffer.Represents (b : GrowingBuffer) (buffer : AllocBuffer) : Prop where
  bytes : ∃ rest, b.buffer.bytes = buffer.text ++ 0 :: rest
  text : 0 ∉ buffer.text
  end_ : b.end_ = b.buffer.base + buffer.text.length
  bufferLen : b.bufferLen = buffer.size
  size : b.buffer.bytes.length = buffer.size
  enough : 4096 ≤ buffer.size
  limit : buffer.size < 2 ^ 63

section
variable {realloc : Realloc} {b : GrowingBuffer} {buffer : AllocBuffer} {value : Str} {values : List Str}

theorem GrowingBuffer.Represents.room (represents : b.Represents buffer) : buffer.text.length < buffer.size := by
  obtain ⟨rest, bytes⟩ := represents.bytes
  rw [← represents.size, bytes, List.length_append, List.length_cons]
  omega

theorem strAt_start {text : Str} (inside : 0 ∉ text) (rest : Buffer) : strAt (text ++ 0 :: rest) 0 = text :=
  strAt_append [] text rest rfl fun _ member => ne_of_mem_of_not_mem member inside

theorem strlen_represents (represents : b.Represents buffer) : strlen b.buffer.bytes = some buffer.text.length := by
  obtain ⟨rest, bytes⟩ := represents.bytes
  unfold strlen
  rw [bytes, if_pos (List.mem_append_right _ List.mem_cons_self), strAt_start represents.text]

/-- The text stays when the memory grows, also where it moves. -/
theorem reserve_represents (reallocates : Reallocates realloc) (represents : b.Represents buffer) (short : value.length ≤ 4095) :
    (∃ b', b.reserve realloc buffer.text.length value.length = some b' ∧
        b'.Represents ⟨buffer.text, (appendToBuffer buffer value).size⟩) ∨
      b.reserve realloc buffer.text.length value.length = none ∧ realloc b.buffer (b.bufferLen * 2) = none := by
  have room := represents.room
  have limit := represents.limit
  have sum : (buffer.text.length + value.length + 2) % 2 ^ 64 = buffer.text.length + value.length + 2 := Nat.mod_eq_of_lt (by omega)
  have doubled : b.bufferLen * 2 % 2 ^ 64 = b.bufferLen * 2 := Nat.mod_eq_of_lt (by rw [represents.bufferLen]; omega)
  unfold GrowingBuffer.reserve appendToBuffer
  rw [sum, doubled, represents.bufferLen]
  by_cases small : buffer.size < buffer.text.length + value.length + 2
  · rw [if_pos small]
    dsimp only
    rw [if_pos small]
    cases given : realloc b.buffer (buffer.size * 2) with
    | none => exact Or.inr ⟨rfl, rfl⟩
    | some tmp =>
      obtain ⟨rest, bytes⟩ := represents.bytes
      have size := reallocates.size given
      have first : tmp.bytes.take buffer.size = b.buffer.bytes := by
        refine List.ext_getElem? fun p => ?_
        by_cases inside : p < buffer.size
        · rw [List.getElem?_take_of_lt inside]
          exact reallocates.kept given p (by rw [represents.size]; omega)
        · rw [List.getElem?_take_eq_none (by omega), List.getElem?_eq_none (by rw [represents.size]; omega)]
      refine Or.inl ⟨_, rfl, ⟨rest ++ tmp.bytes.drop buffer.size, ?_⟩, represents.text, ?_, rfl, size, ?_, reallocates.limit given⟩
      · conv => lhs; rw [← List.take_append_drop buffer.size tmp.bytes, first, bytes]
        exact List.append_assoc ..
      · dsimp only
        rw [represents.end_]
        omega
      · have enough := represents.enough
        dsimp only
        omega
  · rw [if_neg small]
    dsimp only
    rw [if_neg small]
    exact Or.inl ⟨b, rfl, represents.bytes, represents.text, represents.end_, represents.bufferLen, represents.size, represents.enough, limit⟩

theorem snprintf_represents {printed : Str} (represents : b.Represents buffer) (inside : 0 ∉ printed)
    (room : buffer.text.length + printed.length < buffer.size) :
    ∃ block, snprintf b.buffer b.end_ (printed.length + 1) printed = some (printed.length, block) ∧
      GrowingBuffer.Represents { b with buffer := block, end_ := b.end_ + printed.length } ⟨buffer.text ++ printed, buffer.size⟩ := by
  obtain ⟨⟨rest, bytes⟩, text, end_, bufferLen, size, enough, limit⟩ := represents
  have left : rest.length + 1 + buffer.text.length = buffer.size := by
    rw [← size, bytes, List.length_append, List.length_cons, Nat.add_comm]
  have fits : (printed ++ [0]).length ≤ (0 :: rest).length := by
    rw [List.length_append, List.length_singleton, List.length_cons]
    omega
  have behind : b.end_ - b.buffer.base = buffer.text.length := by omega
  have cut : printed.take (printed.length + 1 - 1) = printed := List.take_of_length_le (Nat.le_refl _)
  have stored := @writeAll_at _ buffer.text (0 :: rest) (printed ++ [0]) fits
  unfold snprintf
  rw [if_neg (Nat.succ_ne_zero _), if_neg (by omega), behind, cut, bytes, stored]
  refine ⟨_, rfl, ⟨(0 :: rest).drop (printed ++ [0]).length, ?_⟩, ?_, ?_, bufferLen, ?_, enough, limit⟩
  · unfold overlay
    rw [List.append_assoc, List.append_assoc]
    rfl
  · rw [List.mem_append]
    exact not_or.mpr ⟨text, inside⟩
  · rw [end_, List.length_append, Nat.add_assoc]
  · rw [List.length_append, overlay_length fits, List.length_cons, Nat.add_comm]
    exact left

theorem append_represents (reallocates : Reallocates realloc) (represents : b.Represents buffer) (short : value.length ≤ 4095)
    (inside : 0 ∉ value) :
    (∃ b', appendToBufferAt realloc b value = some (true, b') ∧ b'.Represents (appendToBuffer buffer value)) ∨
      appendToBufferAt realloc b value = some (false, b) ∧ realloc b.buffer (b.bufferLen * 2) = none := by
  unfold appendToBufferAt
  rw [strlen_represents represents]
  dsimp only
  rcases reserve_represents reallocates represents short with ⟨b', reserved, held⟩ | ⟨refused, null⟩
  · have grown := (appendToBuffer_room represents.enough represents.room (Nat.lt_succ_of_le short)).2
    rw [appendToBuffer_text, List.append_assoc] at grown
    have blank : (value ++ str " ").length = value.length + 1 := List.length_append
    have clean : 0 ∉ value ++ str " " := by
      rw [List.mem_append]
      exact not_or.mpr ⟨inside, by decide⟩
    obtain ⟨block, printed, kept⟩ := snprintf_represents held clean (by rwa [List.length_append] at grown)
    rw [blank] at printed
    have size : (value.length + 2) % 2 ^ 64 = value.length + 1 + 1 := Nat.mod_eq_of_lt (by omega)
    have whole : (value.length + 1) % 2 ^ 64 = value.length + 1 := Nat.mod_eq_of_lt (by omega)
    rw [reserved]
    dsimp only
    rw [size, whole, printed]
    dsimp only
    rw [if_neg (Nat.lt_irrefl _)]
    refine Or.inl ⟨_, rfl, ?_⟩
    rw [blank, ← List.append_assoc] at kept
    exact kept
  · rw [refused]
    exact Or.inr ⟨rfl, null⟩

/-- A run of calls ends with all values in the buffer, or where `realloc` returns NULL. -/
theorem appendAll_represents (reallocates : Reallocates realloc) (represents : b.Represents buffer)
    (values_ : ∀ value ∈ values, value.length ≤ 4095 ∧ 0 ∉ value) :
    ∃ returned b', appendAll realloc b values = some (returned, b') ∧
      (returned = true → b'.Represents (values.foldl appendToBuffer buffer)) ∧
      (returned = false → realloc b'.buffer (b'.bufferLen * 2) = none) := by
  induction values generalizing b buffer with
  | nil => exact ⟨true, b, rfl, fun _ => represents, fun h => nomatch h⟩
  | cons value values ih =>
    obtain ⟨⟨short, inside⟩, later⟩ := List.forall_mem_cons.mp values_
    unfold appendAll
    rcases append_represents reallocates represents short inside with ⟨b', appended, kept⟩ | ⟨refused, null⟩
    · rw [appended]
      exact ih kept later
    · rw [refused]
      exact ⟨false, b, rfl, fun h => (nomatch h), fun _ => null⟩

theorem callocBuffer_represents (base : Nat) : (callocBuffer base).Represents {} where
  bytes := ⟨List.replicate 4095 0, rfl⟩
  text := List.not_mem_nil
  end_ := rfl
  bufferLen := rfl
  size := List.length_replicate
  enough := Nat.le_refl _
  limit := by decide

theorem appends_text (values : List Str) : (values.foldl appendToBuffer buffer).text = buffer.text ++ spaced values := by
  induction values generalizing buffer with
  | nil => simp [spaced]
  | cons value values ih => rw [List.foldl_cons, ih, appendToBuffer_text, spaced_cons, List.append_assoc, List.append_assoc, List.append_assoc]

end

end Ifupdown
