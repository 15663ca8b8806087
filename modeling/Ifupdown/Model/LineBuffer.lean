import Ifupdown.Base.Cells
import Ifupdown.Model.LineReader

/-! `lif_fgetline` with its pointers into the line buffer, each of its writes checked. -/
namespace Ifupdown

open Cells

/-- `getc(stream)`, where `none` is EOF. -/
def getc : Str → Option UInt8 × Str
  | [] => (none, [])
  | c :: stream => (some c, stream)

/-- `ungetc(c, stream)` does nothing with EOF. -/
def ungetc (c : Option UInt8) (stream : Str) : Str :=
  match c with
  | none => stream
  | some c => c :: stream

/-- The byte that is stored of an `int`. EOF is -1. -/
def toChar (c : Option UInt8) : UInt8 := c.getD 255

def skipLine : Str → Option UInt8 × Str
  | [] => getc []
  | c :: stream => if c = 10 then getc (c :: stream) else skipLine stream

def trimSpaces : Str → Option UInt8 × Str
  | [] => getc []
  | c :: stream => if c = 9 ∨ c = 32 then trimSpaces stream else getc (c :: stream)

/-- The variables of `lif_fgetline`, with `s` as an index into the line, and the stream. -/
structure LineVars where
  line : Buffer
  s : Nat := 0
  quoted : Bool := false
  c : Option UInt8 := some 0
  stream : Str

def LineVars.put (v : LineVars) (c : UInt8) : Option LineVars :=
  match write v.line v.s c with
  | none => none
  | some line => some { v with line := line, s := v.s + 1 }

/-- The body of the loop with the byte that was read, and whether the loop goes on. -/
def LineVars.body (v : LineVars) (c : UInt8) : Option (Bool × LineVars) :=
  if c = 92 ∧ v.quoted = false then some (true, { v with quoted := true })
  else if c = 35 then
    if v.quoted = false then
      let (c, stream) := skipLine v.stream
      match { v with c := c, stream := stream }.put (toChar c) with
      | none => none
      | some v => some (false, v)
    else some (true, { v with quoted := false })
  else if c = 10 then
    if v.quoted = true then
      let (c2, stream) := trimSpaces v.stream
      some (true, { v with stream := ungetc c2 stream, quoted := false })
    else
      match v.put c with
      | none => none
      | some v => some (false, v)
  else if c = 13 then
    match v.put 10 with
    | none => none
    | some v =>
      let (c2, stream) := getc v.stream
      -- a newline behind the carriage return is taken with it
      let stream := if c2 = some 10 then stream else ungetc c2 stream
      if v.quoted = true then some (true, { v with stream := stream, quoted := false }) else some (false, { v with stream := stream })
  else
    match if v.quoted = true then v.put 92 else some v with
    | none => none
    | some v =>
      match { v with quoted := false }.put c with
      | none => none
      | some v => some (true, v)

/-- `while (s < end && (c = getc(stream)) != EOF)` -/
def lineWhile (end_ : Nat) : Nat → LineVars → Option LineVars
  | fuel, v =>
    if v.s < end_ then
      match getc v.stream, fuel with
      | (none, stream), _ => some { v with c := none, stream := stream }
      | (some _, _), 0 => none
      | (some c, stream), fuel + 1 =>
        match { v with c := some c, stream := stream }.body c with
        | none => none
        | some (true, v) => lineWhile end_ fuel v
        | some (false, v) => some v
    else some v

/-- The two bytes in front of `s` that make up the end of the line become NUL. -/
def removeNewline (buf : Buffer) (s : Nat) : Option Buffer :=
  if 0 < s ∧ buf[s - 1]? = some 10 then
    match write buf (s - 1) 0 with
    | none => none
    | some buf => if 0 < s - 1 ∧ buf[s - 2]? = some 13 then write buf (s - 2) 0 else some buf
  else some buf

/-- `lif_fgetline` for a line that is not NULL: whether it returns the line, with the variables at its end, `s` before the
newline is removed. `none` where it writes outside of the buffer, and where the fuel does not last. -/
def lifFgetlineAt (ferror : Bool) (fuel : Nat) (line : Buffer) (size : Nat) (stream : Str) : Option (Bool × LineVars) :=
  match lineWhile (size - 2) fuel { line := line, stream := stream } with
  | none => none
  | some v =>
    if v.c = none ∧ (v.s = 0 ∨ ferror = true) then some (false, v)
    else
      match write v.line v.s 0 with
      | none => none
      | some line =>
        match removeNewline line v.s with
        | none => none
        | some line => some (true, { v with line := line })

end Ifupdown
