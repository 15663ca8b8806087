import Ifupdown.Base.Text

/-! Reading lines and cutting them into tokens, from fgetline.c and tokenize.h. The line buffer
is an array of bytes, and what a short line does not overwrite of it stays there. -/
namespace Ifupdown

abbrev Buffer := List UInt8

def strAt (buf : Buffer) (p : Nat) : Str := (buf.drop p).takeWhile (fun c => c != 0)

/-- `lif_next_token(&bufp)`: where the token starts, where `bufp` then points, and the buffer,
in which the byte after the token has become NUL. -/
def lifNextTokenAt (buf : Buffer) (bufp : Nat) : Nat × Nat × Buffer :=
  let out := bufp + ((buf.drop bufp).takeWhile isSpace).length
  let stop := out + ((buf.drop out).takeWhile (fun c => c != 0 && !isSpace c)).length
  (out, stop + 1, buf.set stop 0)

/-- The loop of `lif_fgetline`: the bytes that it stores, whether it stops at the end of the
stream, and what is left of the stream. `room` is where the loop stops storing, `quoted` is set
after a backslash, and `joined` while the blanks after an escaped newline are skipped. -/
def fgetlineLoop (room : Nat) : (quoted joined : Bool) → (line stream : Str) → Str × Bool × Str
  | _, _, line, [] => (line, decide (line.length < room), [])
  | quoted, joined, line, c :: stream =>
    if joined && (c == 9 || c == 32) then fgetlineLoop room quoted true line stream
    else if ¬ line.length < room then (line, false, c :: stream)
    else if c == 92 && !quoted then fgetlineLoop room true false line stream
    else if c == 35 then
      if quoted then fgetlineLoop room false false line stream
      else
        match stream.dropWhile (fun c => c != 10) with
        -- at the end of the stream the value of EOF is stored
        | [] => (line ++ [255], true, [])
        | newline :: stream => (line ++ [newline], false, stream)
    else if c == 10 then
      if quoted then fgetlineLoop room false true line stream else (line ++ [10], false, stream)
    else if c == 13 then
      match stream with
      | 10 :: stream =>
        if quoted then fgetlineLoop room false false (line ++ [10]) stream else (line ++ [10], false, stream)
      | stream =>
        if quoted then fgetlineLoop room false false (line ++ [10]) stream else (line ++ [10], false, stream)
    else fgetlineLoop room false false (line ++ (if quoted then [92, c] else [c])) stream

/-- The bytes of a line as they end up in the buffer: without the newline, with their NULs. -/
def terminate (line : Str) : Buffer :=
  match line.reverse with
  | 10 :: 13 :: rest => rest.reverse ++ [0, 0, 0]
  | 10 :: rest => rest.reverse ++ [0, 0]
  | _ => line ++ [0]

/-- The buffer after a call, or `none` where the C function returns NULL, and the rest of the stream. -/
def lifFgetline (buf : Buffer) (size : Nat) (stream : Str) : Option Buffer × Str :=
  let (line, eof, stream) := fgetlineLoop (size - 2) false false [] stream
  if eof && line.isEmpty then (none, stream)
  else (some (terminate line ++ buf.drop (line.length + 1)), stream)

theorem terminate_zero (line : Str) : (terminate line).dropLast ++ [0] = terminate line := by
  unfold terminate
  split <;> simp

theorem terminate_length (line : Str) : (terminate line).length = line.length + 1 := by
  have size : line.reverse.length = line.length := List.length_reverse
  unfold terminate
  split
  · rename_i same
    rw [same] at size
    simp at size ⊢
    omega
  · rename_i same
    rw [same] at size
    simp at size ⊢
    omega
  · simp

/-- What is left in the buffer behind a line is what stood there. -/
theorem lifFgetline_stored (buf : Buffer) (size : Nat) (stream : Str) : lifFgetline buf size stream =
    let (line, eof, rest) := fgetlineLoop (size - 2) false false [] stream
    (if eof && line.isEmpty then none else some ((terminate line).dropLast ++ 0 :: buf.drop (line.length + 1)), rest) := by
  unfold lifFgetline
  dsimp only
  rw [List.append_cons, terminate_zero]
  split <;> rfl

theorem skipped_length {stream rest : Str} {newline : UInt8} (h : stream.dropWhile (fun c => c != 10) = newline :: rest) :
    rest.length ≤ stream.length := by
  have shorter := (List.dropWhile_sublist (l := stream) (fun c => c != 10)).length_le
  rw [h, List.length_cons] at shorter
  omega

theorem fgetlineLoop_length {room : Nat} (quoted joined : Bool) (line stream : Str) :
    (fgetlineLoop room quoted joined line stream).2.2.length ≤ stream.length := by
  fun_induction fgetlineLoop room quoted joined line stream
  case case7 skipped => exact Nat.le_succ_of_le (skipped_length skipped)
  all_goals (simp only [List.length_cons, List.length_nil]; omega)

theorem fgetlineLoop_shorter (room : Nat) (quoted : Bool) (line : Str) (c : UInt8) (stream : Str)
    (open_ : line.length < room) :
    (fgetlineLoop room quoted false line (c :: stream)).2.2.length ≤ stream.length := by
  unfold fgetlineLoop
  rw [if_neg (by simp), if_neg (by simpa using open_)]
  repeat' split
  all_goals first
    | exact fgetlineLoop_length ..
    | exact Nat.le_refl _
    | exact Nat.zero_le _
    | exact skipped_length ‹_›
    | exact Nat.le_succ_of_le (fgetlineLoop_length ..)
    | exact Nat.le_succ _

theorem lifFgetline_shorter {buf line : Buffer} {size : Nat} {stream rest : Str} (room : 2 < size)
    (h : lifFgetline buf size stream = (some line, rest)) : rest.length < stream.length := by
  have taken := congrArg Prod.snd h
  cases stream with
  | nil =>
    have open_ : 0 < size - 2 := by omega
    simp [lifFgetline, fgetlineLoop, open_] at h
  | cons c stream =>
    have shorter := fgetlineLoop_shorter (size - 2) false [] c stream
      (by simp only [List.length_nil]; omega)
    unfold lifFgetline at taken
    dsimp only at taken
    split at taken <;> (rw [← taken]; exact Nat.lt_succ_of_le shorter)

theorem strAt_append (pre s post : Buffer) {p : Nat} (at_ : pre.length = p) (inside : ∀ c ∈ s, c ≠ 0) :
    strAt (pre ++ s ++ 0 :: post) p = s := by
  subst at_
  unfold strAt
  rw [List.append_assoc, List.drop_left, List.takeWhile_append_of_pos fun c member => by simpa using inside c member,
    List.takeWhile_cons_of_neg (by decide), List.append_nil]

def Solid (s : Str) : Prop := ∀ c ∈ s, c ≠ 0 ∧ isSpace c = false

instance : DecidablePred Solid := List.decidableBAll fun c => c ≠ 0 ∧ isSpace c = false

theorem lifNextTokenAt_word (pre : Buffer) {word : Buffer} (post : Buffer) {p : Nat} (at_ : pre.length = p) (solid : Solid word) {c : UInt8}
    (stop : c = 0 ∨ word ≠ [] ∧ isSpace c = true) :
    lifNextTokenAt (pre ++ word ++ c :: post) p = (p, p + word.length + 1, pre ++ word ++ 0 :: post) := by
  subst at_
  have ends : (c != 0 && !isSpace c) = false := by
    rcases stop with rfl | ⟨-, space⟩
    · rfl
    · rw [space]
      exact Bool.and_false _
  have none : ((word ++ c :: post).takeWhile isSpace).length = 0 := by
    cases word with
    | nil =>
      rcases stop with rfl | ⟨nonempty, -⟩
      · rfl
      · exact absurd rfl nonempty
    | cons d rest =>
      obtain ⟨first, -⟩ := List.forall_mem_cons.mp solid
      rw [List.cons_append, List.takeWhile_cons_of_neg (by rw [first.2]; exact Bool.false_ne_true)]
      rfl
  have whole : (word ++ c :: post).takeWhile (fun c => c != 0 && !isSpace c) = word := by
    rw [List.takeWhile_append_of_pos fun d member => by simp [solid d member],
      List.takeWhile_cons_of_neg (by rw [ends]; exact Bool.false_ne_true), List.append_nil]
  have set : (pre ++ word ++ c :: post).set (pre.length + word.length) 0 = pre ++ word ++ 0 :: post := by
    have first : (c :: post).set 0 0 = 0 :: post := rfl
    rw [List.set_append_right _ _ (Nat.le_of_eq List.length_append), List.length_append, Nat.sub_self,
      first]
  simp only [lifNextTokenAt]
  rw [List.append_assoc, List.drop_left, none, Nat.add_zero, List.drop_left, whole, ← List.append_assoc, set]

theorem fgetlineLoop_line (room : Nat) {text : Str} (stream : Str)
    (plain : ∀ c ∈ text, c ≠ 35 ∧ c ≠ 10 ∧ c ≠ 13) (last : text.getLast? ≠ some 92) (quoted : Bool) (line : Str)
    (open_ : quoted = true → text ≠ []) (short : line.length + (if quoted then 1 else 0) + text.length < room) :
    fgetlineLoop room quoted false line (text ++ 10 :: stream) =
      (line ++ (if quoted then [92] else []) ++ text ++ [10], false, stream) := by
  induction text generalizing quoted line with
  | nil =>
    have unquoted : quoted = false := by
      cases quoted with
      | false => rfl
      | true => exact absurd rfl (open_ rfl)
    subst unquoted
    simp only [Bool.false_eq_true, if_false, List.length_nil, Nat.add_zero] at short
    unfold fgetlineLoop
    simp [short]
  | cons c rest ih =>
    obtain ⟨⟨hash, newline, cr⟩, tail⟩ := List.forall_mem_cons.mp plain
    have room : line.length < room := by
      simp only [List.length_cons] at short
      omega
    have later : rest ≠ [] → rest.getLast? ≠ some 92 := by
      intro nonempty
      obtain ⟨d, tail, rfl⟩ := List.exists_cons_of_ne_nil nonempty
      rwa [List.getLast?_cons_cons] at last
    have step : rest.getLast? ≠ some 92 := by
      by_cases none : rest = []
      · rw [none]
        simp
      · exact later none
    rw [List.cons_append]
    unfold fgetlineLoop
    simp only [Bool.false_and, Bool.false_eq_true, if_false, not_true_eq_false, room,
      show (c == 35) = false by simpa using hash, show (c == 10) = false by simpa using newline,
      show (c == 13) = false by simpa using cr]
    by_cases escape : (c == 92 && !quoted) = true
    · rw [if_pos escape]
      simp only [Bool.and_eq_true, beq_iff_eq, Bool.not_eq_true'] at escape
      obtain ⟨rfl, rfl⟩ := escape
      have nonempty : rest ≠ [] := by
        rintro rfl
        exact last rfl
      rw [ih tail step true line (fun _ => nonempty) (by
        simp only [Bool.false_eq_true, if_false, if_true, List.length_cons] at short ⊢
        omega)]
      simp
    · rw [if_neg escape, ih tail step false _ (by simp) (by
        cases quoted <;>
          simp only [Bool.false_eq_true, if_false, if_true, List.length_append, List.length_cons, List.length_nil]
            at short ⊢ <;> omega)]
      cases quoted <;> simp

theorem terminate_newline {text : Str} (last : text.getLast? ≠ some 13) : terminate (text ++ [10]) = text ++ [0, 0] := by
  unfold terminate
  rw [List.reverse_append]
  cases back : text.reverse with
  | nil =>
    have empty : text = [] := List.reverse_eq_nil_iff.mp back
    rw [empty]
    rfl
  | cons c rest =>
    have same : text = rest.reverse ++ [c] := by
      rw [← List.reverse_reverse text, back, List.reverse_cons]
    have cr : c ≠ 13 := by
      rintro rfl
      rw [same, List.getLast?_concat] at last
      exact last rfl
    simp only [List.reverse_cons, List.reverse_nil, List.nil_append, List.singleton_append]
    split
    · rename_i same'
      exact absurd (List.cons.inj (List.cons.inj same').2).1 cr
    · rename_i same'
      rw [← (List.cons.inj same').2, same, List.reverse_cons]
    · rename_i other
      exact absurd rfl (other _)

theorem terminate_open {text : Str} (last : text.getLast? ≠ some 10) : terminate text = text ++ [0] := by
  unfold terminate
  rw [← List.head?_reverse] at last
  split
  · rename_i same
    rw [same] at last
    exact absurd rfl last
  · rename_i same
    rw [same] at last
    exact absurd rfl last
  · rfl

theorem lifFgetline_line (size : Nat) {text : Str} (buf : Buffer) (stream : Str)
    (plain : ∀ c ∈ text, c ≠ 35 ∧ c ≠ 10 ∧ c ≠ 13) (last : text.getLast? ≠ some 92) (short : text.length + 2 < size) :
    lifFgetline buf size (text ++ 10 :: stream) =
      (some (text ++ [0, 0] ++ buf.drop (text.length + 2)), stream) := by
  have read := fgetlineLoop_line (size - 2) stream plain last false [] (by simp)
    (by simp only [List.length_nil, Bool.false_eq_true, if_false]; omega)
  have kept : terminate (text ++ [10]) = text ++ [0, 0] :=
    terminate_newline fun cr => (plain 13 (List.mem_of_getLast? cr)).2.2 rfl
  unfold lifFgetline
  rw [read]
  simp [kept]

end Ifupdown
