import Ifupdown.Executors.Growth

/-! The buffers for addresses and gateways grow in time. -/
namespace Ifupdown

/-- Values that are no longer than a line of a file always fit, after one doubling at most for each of them. Calls only end
before the last one where `realloc` returns NULL. -/
theorem appends_inside {realloc : Realloc} (reallocates : Reallocates realloc) (base : Nat) {values : List Str}
    (short : ∀ value ∈ values, value.length ≤ 4095 ∧ 0 ∉ value) :
    ∃ returned b, appendAll realloc (callocBuffer base) values = some (returned, b) ∧
      (returned = true →
        strAt b.buffer.bytes 0 = spaced values ∧ b.end_ = b.buffer.base + (spaced values).length ∧
        b.buffer.bytes[(spaced values).length]? = some 0 ∧ (spaced values).length + 1 ≤ b.bufferLen ∧
        b.bufferLen = b.buffer.bytes.length) ∧
      (returned = false → realloc b.buffer (b.bufferLen * 2) = none) := by
  obtain ⟨returned, b, ran, kept, null⟩ := appendAll_represents reallocates (callocBuffer_represents base) short
  refine ⟨returned, b, ran, fun success => ?_, null⟩
  have represents := kept success
  have room := represents.room
  obtain ⟨⟨rest, bytes⟩, inside, end_, bufferLen, size, -, -⟩ := represents
  have text : (values.foldl appendToBuffer {}).text = spaced values := appends_text values
  rw [text] at bytes inside end_ room
  refine ⟨?_, end_, ?_, by omega, by omega⟩
  · rw [bytes, strAt_start inside]
  · rw [bytes, List.getElem?_append_right (Nat.le_refl _), Nat.sub_self]
    rfl

def movingRealloc : Realloc := fun block n =>
  if n < 2 ^ 63 then some ⟨block.base + n, (block.bytes ++ List.replicate n 170).take n⟩ else none

theorem movingRealloc_reallocates : Reallocates movingRealloc := by
  have moved {block tmp : Block} {n : Nat} (given : movingRealloc block n = some tmp) :
      n < 2 ^ 63 ∧ tmp = ⟨block.base + n, (block.bytes ++ List.replicate n 170).take n⟩ := by
    unfold movingRealloc at given
    split at given
    · exact ⟨‹_›, (Option.some.inj given).symm⟩
    · cases given
  refine ⟨fun given => ?_, fun given p both => ?_, fun given => (moved given).1⟩
  · rw [(moved given).2, List.length_take, List.length_append, List.length_replicate]
    omega
  · rw [(moved given).2, List.getElem?_take_of_lt (by omega), List.getElem?_append_left (by omega)]

theorem replicate_short {n : Nat} {c : UInt8} (fits : n ≤ 4095) (solid : c ≠ 0) :
    (List.replicate n c).length ≤ 4095 ∧ 0 ∉ List.replicate n c :=
  ⟨Nat.le_trans (Nat.le_of_eq List.length_replicate) fits, fun member => solid (List.eq_of_mem_replicate member).symm⟩

/-- For each of the two values a single byte of room is missing. -/
theorem appends_inside_twice : ∃ returned b,
    appendAll movingRealloc (callocBuffer 16) [List.replicate 4095 97, List.replicate 4095 98] = some (returned, b) ∧
      (returned = true →
        strAt b.buffer.bytes 0 = spaced [List.replicate 4095 97, List.replicate 4095 98] ∧
        b.end_ = b.buffer.base + (spaced [List.replicate 4095 97, List.replicate 4095 98]).length ∧
        b.buffer.bytes[(spaced [List.replicate 4095 97, List.replicate 4095 98]).length]? = some 0 ∧
        (spaced [List.replicate 4095 97, List.replicate 4095 98]).length + 1 ≤ b.bufferLen ∧
        b.bufferLen = b.buffer.bytes.length) ∧
      (returned = false → movingRealloc b.buffer (b.bufferLen * 2) = none) :=
  appends_inside movingRealloc_reallocates 16 (List.forall_mem_cons.mpr ⟨replicate_short (by decide) (by decide),
    List.forall_mem_singleton.mpr (replicate_short (by decide) (by decide))⟩)

example : (appendAll movingRealloc (callocBuffer 16) [str "10.0.0.1", str "10.0.0.2"]).map
    (fun result => (result.1, strAt result.2.buffer.bytes 0, result.2.end_)) = some (true, str "10.0.0.1 10.0.0.2 ", 34) := by
  decide +kernel

end Ifupdown
