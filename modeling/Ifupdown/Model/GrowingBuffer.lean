import Mathlib.Algebra.Group.Nat.Defs
import Ifupdown.Base.Cells
import Ifupdown.Executors.Environment
import Ifupdown.Model.LineReader

/-! `append_to_buffer` of lifecycle.c on allocated memory, with pointers that are addresses. -/
namespace Ifupdown

open Cells

structure Block where
  base : Nat
  bytes : Buffer

/-- `realloc`, which can return NULL. -/
abbrev Realloc := Block → Nat → Option Block

/-- The contents stay as far as both sizes reach, and nothing larger than `PTRDIFF_MAX` is allocated. -/
structure Reallocates (realloc : Realloc) : Prop where
  size {block tmp : Block} {n : Nat} : realloc block n = some tmp → tmp.bytes.length = n
  kept {block tmp : Block} {n : Nat} : realloc block n = some tmp → ∀ p < min block.bytes.length n, tmp.bytes[p]? = block.bytes[p]?
  limit {block tmp : Block} {n : Nat} : realloc block n = some tmp → n < 2 ^ 63

def strlen (bytes : Buffer) : Option Nat := if 0 ∈ bytes then some (strAt bytes 0).length else none

/-- `snprintf(at, size, "%s", text)` for a text that is shorter than `INT_MAX`: what it returns, and the memory. `none` where
it writes outside of that. -/
def snprintf (block : Block) (at_ size : Nat) (text : Str) : Option (Nat × Block) :=
  if size = 0 then some (text.length, block)
  else if at_ < block.base then none
  else
    match writeAll block.bytes (at_ - block.base) (text.take (size - 1) ++ [0]) with
    | none => none
    | some bytes => some (text.length, { block with bytes := bytes })

structure GrowingBuffer where
  buffer : Block
  bufferLen : Nat
  end_ : Nat

def GrowingBuffer.reserve (realloc : Realloc) (b : GrowingBuffer) (used valueLen : Nat) : Option GrowingBuffer :=
  if b.bufferLen < (used + valueLen + 2) % 2 ^ 64 then
    let endOffset := b.end_ - b.buffer.base
    match realloc b.buffer (b.bufferLen * 2 % 2 ^ 64) with
    | some tmp => some { buffer := tmp, end_ := tmp.base + endOffset, bufferLen := b.bufferLen * 2 % 2 ^ 64 }
    | none => none
  else some b

/-- `append_to_buffer`: what it returns, and the buffer. `none` where it reads or writes outside of the memory. -/
def appendToBufferAt (realloc : Realloc) (b : GrowingBuffer) (value : Str) : Option (Bool × GrowingBuffer) :=
  match strlen b.buffer.bytes with
  | none => none
  | some used =>
    match b.reserve realloc used value.length with
    | none => some (false, b)
    | some b =>
      match snprintf b.buffer b.end_ ((value.length + 2) % 2 ^ 64) (value ++ str " ") with
      | none => none
      | some (printed, buffer) =>
        let b := { b with buffer := buffer }
        -- here be dragons
        if printed < (value.length + 1) % 2 ^ 64 then some (false, b)
        else some (true, { b with end_ := b.end_ + printed })

def appendAll (realloc : Realloc) (b : GrowingBuffer) : List Str → Option (Bool × GrowingBuffer)
  | [] => some (true, b)
  | value :: values =>
    match appendToBufferAt realloc b value with
    | some (true, b) => appendAll realloc b values
    | result => result

/-- `calloc(BUFFER_LEN, 1)`, with the other two variables. -/
def callocBuffer (base : Nat) : GrowingBuffer :=
  { buffer := ⟨base, List.replicate 4096 0⟩, bufferLen := 4096, end_ := base }

end Ifupdown
