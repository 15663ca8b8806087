import Ifupdown.Model.LineBuffer
import Ifupdown.Model.LogicalLines

/-! The bytes that `lif_fgetline` stores in its buffer are the line that it reads. -/
namespace Ifupdown

open Cells

def LineVars.holding (line : Buffer) (text : Str) (quoted : Bool) (c : Option UInt8) (stream : Str) : LineVars :=
  { line := overlay text line, s := text.length, quoted := quoted, c := c, stream := stream }

section
variable {line : Buffer} {text stream : Str} {quoted : Bool} {c d : UInt8} {got : Option UInt8} {end_ : Nat}

theorem put_holding (room : text.length < line.length) :
    (LineVars.holding line text quoted got stream).put d = some (LineVars.holding line (text ++ [d]) quoted got stream) := by
  unfold LineVars.put LineVars.holding
  dsimp only
  rw [write_overlay room, List.length_append]
  rfl

theorem skipLine_drops (stream : Str) : skipLine stream = getc (stream.dropWhile fun c => c != 10) := by
  induction stream with
  | nil => rfl
  | cons c stream ih =>
    unfold skipLine
    by_cases newline : c = 10
    · rw [if_pos newline, List.dropWhile_cons_of_neg (by simp [newline])]
    · rw [if_neg newline, List.dropWhile_cons_of_pos (by simpa using newline), ih]

theorem trimSpaces_drops (stream : Str) :
    ungetc (trimSpaces stream).1 (trimSpaces stream).2 = stream.dropWhile fun c => c == 9 || c == 32 := by
  induction stream with
  | nil => rfl
  | cons c stream ih =>
    unfold trimSpaces
    by_cases blank : c = 9 ∨ c = 32
    · rw [if_pos blank, List.dropWhile_cons_of_pos (by simpa using blank), ih]
    · rw [if_neg blank, List.dropWhile_cons_of_neg (by simpa using blank)]
      rfl

theorem fgetlineLoop_joined (room : Nat) (line stream : Str) :
    fgetlineLoop room false true line stream = fgetlineLoop room false false line (stream.dropWhile fun c => c == 9 || c == 32) := by
  induction stream with
  | nil => unfold fgetlineLoop; rfl
  | cons c stream ih =>
    cases blank : c == 9 || c == 32 with
    | true =>
      rw [List.dropWhile_cons_of_pos (by exact blank), ← ih]
      conv => lhs; unfold fgetlineLoop
      rw [blank]
      rfl
    | false =>
      rw [List.dropWhile_cons_of_neg (by simpa using blank)]
      unfold fgetlineLoop
      rw [blank]
      rfl

/-- What the body leaves of a byte, beside what the loop makes of it: a line to go on with, or the line. -/
inductive ReadsByte (end_ : Nat) (line : Buffer) (c : UInt8) (stream : Str) : Option (Bool × LineVars) → Str × Bool × Str → Prop
  | on {text rest : Str} (quoted : Bool) : text.length ≤ end_ + 1 → rest.length ≤ stream.length →
      ReadsByte end_ line c stream (some (true, .holding line text quoted (some c) rest)) (fgetlineLoop end_ quoted false text rest)
  | off {text rest : Str} (quoted : Bool) (got : Option UInt8) : text.length ≤ end_ + 1 →
      ReadsByte end_ line c stream (some (false, .holding line text quoted got rest)) (text, got.isNone, rest)

theorem loopFrom_cr (room : Nat) (line stream : Str) : loopFrom room .cr line stream =
    fgetlineLoop room false false line (if stream.head? = some 10 then stream.tail else stream) := by
  rcases stream with _ | ⟨c, stream⟩
  · rfl
  by_cases newline : c = 10
  · subst newline
    rfl
  · rw [loopFrom_text (.inr (.inr ⟨rfl, fun d first => by cases first; exact newline⟩)), if_neg (by simpa using newline)]
    rfl

theorem tail_length (stream : Str) : (if stream.head? = some 10 then stream.tail else stream).length ≤ stream.length := by
  split
  · rw [List.length_tail]
    omega
  · exact Nat.le_refl _

theorem body_hash (inside : text.length < line.length) : (LineVars.holding line text false (some 35) stream).body 35 =
    some (false, .holding line (text ++ [toChar (skipLine stream).1]) false (skipLine stream).1 (skipLine stream).2) := by
  have stored := @put_holding line text (skipLine stream).2 false (toChar (skipLine stream).1) (skipLine stream).1 inside
  have unquoted : (LineVars.holding line text false (some 35) stream).quoted = false := rfl
  unfold LineVars.body
  rw [if_neg (fun escape => absurd escape.1 (by decide)), if_pos rfl, if_pos unquoted]
  unfold LineVars.holding at stored ⊢
  dsimp only
  generalize skipLine stream = skipped at stored ⊢
  obtain ⟨got, rest⟩ := skipped
  dsimp only at stored ⊢
  rw [stored]

theorem body_newline (inside : text.length < line.length) : (LineVars.holding line text false (some 10) stream).body 10 =
    some (false, .holding line (text ++ [10]) false (some 10) stream) := by
  have unquoted : ¬ (LineVars.holding line text false (some 10) stream).quoted = true := Bool.false_ne_true
  unfold LineVars.body
  rw [if_neg (fun escape => absurd escape.1 (by decide)), if_neg (by decide), if_pos rfl, if_neg unquoted, put_holding inside]

theorem body_cr (inside : text.length < line.length) : (LineVars.holding line text quoted (some 13) stream).body 13 =
    some (quoted, .holding line (text ++ [10]) false (some 13) (if stream.head? = some 10 then stream.tail else stream)) := by
  unfold LineVars.body
  rw [if_neg (fun escape => absurd escape.1 (by decide)), if_neg (by decide), if_neg (by decide), if_pos rfl, put_holding inside]
  cases quoted <;> cases stream <;> rfl

theorem body_other (inside : text.length + 2 ≤ line.length) (escape : ¬ (c = 92 ∧ quoted = false)) (hash : c ≠ 35) (newline : c ≠ 10)
    (cr : c ≠ 13) : (LineVars.holding line text quoted (some c) stream).body c =
      some (true, .holding line (text ++ (if quoted then [92, c] else [c])) false (some c) stream) := by
  have escape : ¬ (c = 92 ∧ (LineVars.holding line text quoted (some c) stream).quoted = false) := escape
  unfold LineVars.body
  rw [if_neg escape, if_neg hash, if_neg newline, if_neg cr]
  cases quoted with
  | false =>
    have stored := @put_holding line text stream false c (some c) (by omega)
    have unquoted : ¬ (LineVars.holding line text false (some c) stream).quoted = true := Bool.false_ne_true
    rw [if_neg unquoted, if_neg Bool.false_ne_true]
    unfold LineVars.holding at stored ⊢
    dsimp only
    rw [stored]
  | true =>
    have first := @put_holding line text stream true 92 (some c) (by omega)
    have second := @put_holding line (text ++ [92]) stream false c (some c) (by rw [List.length_append, List.length_singleton]; omega)
    rw [List.append_assoc] at second
    have waits : (LineVars.holding line text true (some c) stream).quoted = true := rfl
    rw [if_pos waits, if_pos rfl, first]
    unfold LineVars.holding at second ⊢
    dsimp only
    rw [second]
    rfl

theorem body_reads (room : text.length < end_) (fits : end_ + 2 ≤ line.length) :
    ReadsByte end_ line c stream ((LineVars.holding line text quoted (some c) stream).body c)
      (fgetlineLoop end_ quoted false text (c :: stream)) := by
  have inside : text.length < line.length := by omega
  have longer (piece : Str) (short : piece.length ≤ 2) : (text ++ piece).length ≤ end_ + 1 := by
    rw [List.length_append]
    omega
  cases quoted with
  | false =>
    have loop : fgetlineLoop end_ false false text (c :: stream) = _ := @loopFrom_step stream .text c end_ text room
    rw [loop]
    by_cases backslash : c = 92
    · subst backslash
      exact .on true (by omega) (Nat.le_refl _)
    by_cases hash : c = 35
    · subst hash
      have act : scanAct .text 35 = .skip .comment := rfl
      rw [body_hash inside, skipLine_drops, act]
      dsimp only [loopFrom]
      cases stream.dropWhile fun c => c != 10 with
      | nil => exact .off false none (longer [255] (by decide))
      | cons newline rest => exact .off false (some newline) (longer [newline] (by simp))
    by_cases newline : c = 10
    · subst newline
      rw [body_newline inside]
      exact .off false (some 10) (longer [10] (by decide))
    by_cases cr : c = 13
    · subst cr
      have act : scanAct .text 13 = .finish .cr := rfl
      have next (rest : Str) : (if ScanMode.cr = .cr ∧ stream.head? = some 10 then stream.tail else rest) =
          if stream.head? = some 10 then stream.tail else rest := by simp
      rw [body_cr inside, act]
      dsimp only
      rw [next]
      exact .off false (some 13) (longer [10] (by decide))
    · rw [body_other (by omega) (fun escape => backslash escape.1) hash newline cr]
      have act : scanAct .text c = .store [c] .text := by simp [scanAct, backslash, hash, newline, cr]
      rw [act]
      exact .on false (longer [c] (by simp)) (Nat.le_refl _)
  | true =>
    have loop : fgetlineLoop end_ true false text (c :: stream) = _ := @loopFrom_step stream .quoted c end_ text room
    rw [loop]
    by_cases hash : c = 35
    · subst hash
      exact .on false (by omega) (Nat.le_refl _)
    by_cases newline : c = 10
    · subst newline
      have body : (LineVars.holding line text true (some 10) stream).body 10 =
          some (true, .holding line text false (some 10) (stream.dropWhile fun c => c == 9 || c == 32)) := by
        rw [← trimSpaces_drops]
        rfl
      have act : scanAct .quoted 10 = .skip .joined := rfl
      rw [body, act]
      dsimp only [loopFrom]
      rw [fgetlineLoop_joined]
      exact .on false (by omega) (List.dropWhile_sublist _).length_le
    by_cases cr : c = 13
    · subst cr
      have act : scanAct .quoted 13 = .store [10] .cr := rfl
      rw [body_cr inside, act]
      dsimp only
      rw [loopFrom_cr]
      exact .on false (longer [10] (by decide)) (tail_length stream)
    · rw [body_other (by omega) (fun escape => absurd escape.2 (by decide)) hash newline cr]
      have act : scanAct .quoted c = .store [92, c] .text := by simp [scanAct, hash, newline, cr]
      rw [act]
      exact .on false (longer [92, c] (by simp)) (Nat.le_refl _)

/-- The loop of the buffer comes to the line that the loop on byte strings comes to, with at most one byte behind
the place where it stops. -/
def Stores (end_ : Nat) (line : Buffer) (looped : Option LineVars) (read : Str × Bool × Str) : Prop :=
  ∃ quoted got, looped = some (.holding line read.1 quoted got read.2.2) ∧ got.isNone = read.2.1 ∧ read.1.length ≤ end_ + 1

theorem lineWhile_stop (fuel : Nat) (within : text.length ≤ end_ + 1) (stop : stream = [] ∨ ¬ text.length < end_) :
    Stores end_ line (lineWhile end_ fuel (.holding line text quoted (some c) stream)) (fgetlineLoop end_ quoted false text stream) := by
  by_cases room : text.length < end_
  · have none := stop.resolve_right (not_not_intro room)
    subst none
    have read : fgetlineLoop end_ quoted false text [] = (text, true, []) := by
      unfold fgetlineLoop
      simp [room]
    rw [read]
    refine ⟨quoted, none, ?_, rfl, within⟩
    unfold lineWhile
    exact if_pos room
  · have read : fgetlineLoop end_ quoted false text stream = (text, false, stream) := by
      cases stream <;> (unfold fgetlineLoop; simp [room])
    rw [read]
    refine ⟨quoted, some c, ?_, rfl, within⟩
    unfold lineWhile
    exact if_neg room

theorem lineWhile_stores {fuel : Nat} (fits : end_ + 2 ≤ line.length) (within : text.length ≤ end_ + 1) (enough : stream.length ≤ fuel) :
    Stores end_ line (lineWhile end_ fuel (.holding line text quoted (some c) stream)) (fgetlineLoop end_ quoted false text stream) := by
  induction fuel generalizing text quoted c stream with
  | zero => exact lineWhile_stop 0 within (Or.inl (List.length_eq_zero_iff.mp (Nat.le_zero.mp enough)))
  | succ fuel ih =>
    by_cases stop : stream = [] ∨ ¬ text.length < end_
    · exact lineWhile_stop _ within stop
    obtain ⟨nonempty, room⟩ := not_or.mp stop
    have room : text.length < end_ := Decidable.not_not.mp room
    obtain ⟨d, stream, rfl⟩ := List.exists_cons_of_ne_nil nonempty
    have enough : stream.length ≤ fuel := Nat.le_of_succ_le_succ enough
    have open_ : (LineVars.holding line text quoted (some c) (d :: stream)).s < end_ := room
    have reads := @body_reads line text stream quoted d end_ room fits
    unfold lineWhile
    rw [if_pos open_]
    unfold LineVars.holding at reads ⊢
    dsimp only [getc]
    generalize LineVars.body _ d = body at reads ⊢
    generalize fgetlineLoop end_ quoted false text (d :: stream) = read at reads ⊢
    cases reads with
    | on quoted within shorter => exact ih within (Nat.le_trans shorter enough)
    | off quoted got within => exact ⟨quoted, got, rfl, rfl, within⟩

theorem removeNewline_overlay (fits : text.length < line.length) :
    removeNewline (overlay (text ++ [0]) line) text.length = some (overlay (terminate text) line) := by
  have size (a b : Str) : (a ++ b).length = a.length + b.length := List.length_append
  have byte {front behind : Str} {d : UInt8} : (overlay (front ++ d :: behind) line)[front.length]? = some d := by
    rw [overlay_at (by rw [size, List.length_cons]; omega), List.getElem?_append_right (Nat.le_refl _), Nat.sub_self]
    rfl
  have cleared {front behind : Str} {d : UInt8} :
      write (overlay (front ++ d :: behind) line) front.length 0 = some (overlay (front ++ 0 :: behind) line) := by
    unfold overlay
    rw [List.append_assoc, List.append_assoc, size, size, List.length_cons, List.length_cons]
    exact write_at
  unfold removeNewline
  rcases List.eq_nil_or_concat' text with rfl | ⟨front, d, rfl⟩
  · rfl
  rw [List.length_append, List.length_singleton, Nat.add_sub_cancel, List.append_assoc]
  have at_ : front.length + 1 - 2 = front.length - 1 := by omega
  rw [at_]
  by_cases newline : d = 10
  · subst newline
    rw [List.singleton_append, if_pos ⟨Nat.succ_pos _, byte⟩, cleared]
    dsimp only
    rcases List.eq_nil_or_concat' front with rfl | ⟨front, e, rfl⟩
    · rfl
    rw [List.length_append, List.length_singleton, Nat.add_sub_cancel, List.append_assoc, List.singleton_append]
    by_cases cr : e = 13
    · subst cr
      have ends : terminate (front ++ [13] ++ [10]) = front ++ [0, 0, 0] := by simp [terminate]
      rw [if_pos ⟨Nat.succ_pos _, byte⟩, cleared, ends]
    · have ends : terminate (front ++ [e] ++ [10]) = front ++ e :: [0, 0] := by
        rw [terminate_newline (by simpa using cr), List.append_assoc]
        rfl
      rw [if_neg (fun both => cr (Option.some.inj (byte.symm.trans both.2))), ends]
  · rw [if_neg (fun both => newline (Option.some.inj (byte.symm.trans both.2))), terminate_open (by simpa using newline), List.append_assoc]

theorem lifFgetlineAt_reads (ferror : Bool) {fuel size : Nat} {line : Buffer} {stream : Str} (room : 2 ≤ size) (whole : line.length = size)
    (enough : stream.length ≤ fuel) :
    let (text, eof, rest) := fgetlineLoop (size - 2) false false [] stream
    ∃ v, lifFgetlineAt ferror fuel line size stream = some (!(eof && (text.isEmpty || ferror)), v) ∧
      v.s = text.length ∧ text.length < size ∧ v.stream = rest ∧
      v.line = overlay (if eof && (text.isEmpty || ferror) then text else terminate text) line := by
  obtain ⟨quoted, got, looped, eof, within⟩ :=
    @lineWhile_stores line [] stream false 0 (size - 2) fuel (by omega) (Nat.zero_le _) enough
  have start : LineVars.holding line [] false (some 0) stream = { line := line, stream := stream } := rfl
  rw [start] at looped
  revert looped eof within
  obtain ⟨text, ended, rest⟩ := fgetlineLoop (size - 2) false false [] stream
  dsimp only
  intro looped eof within
  have fits : text.length < line.length := by omega
  have gives_up : got = none ∧ (text.length = 0 ∨ ferror = true) ↔ (ended && (text.isEmpty || ferror)) = true := by
    rw [← eof, Bool.and_eq_true, Bool.or_eq_true, Option.isNone_iff_eq_none, List.isEmpty_iff, List.length_eq_zero_iff]
  unfold lifFgetlineAt
  rw [looped]
  dsimp only [LineVars.holding]
  cases null : ended && (text.isEmpty || ferror) with
  | true =>
    rw [if_pos (gives_up.mpr null)]
    exact ⟨_, rfl, rfl, by omega, rfl, rfl⟩
  | false =>
    rw [if_neg (fun h => Bool.false_ne_true (null.symm.trans (gives_up.mp h))), write_overlay fits]
    dsimp only
    rw [removeNewline_overlay fits]
    exact ⟨_, rfl, rfl, by omega, rfl, rfl⟩

end

end Ifupdown
