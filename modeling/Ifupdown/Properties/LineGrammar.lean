import Mathlib.Data.List.TakeWhile
import Ifupdown.Model.LineCalls
import Ifupdown.Model.LineEnds

/-! The lines of a configuration file as its grammar puts them together from physical lines. -/
namespace Ifupdown

def unpaired (text : Str) : Bool := (text.reverse.takeWhile fun c => c == 92).length % 2 == 1

/-- A physical line that ends in an unpaired backslash is joined with the next one, without the blanks there. What stands
behind a hash sign is dropped. -/
def joinLines : (joined : Bool) → List Str → List Str
  | _, [] => []
  | joined, line :: rest =>
    let line := if joined then line.dropWhile isBlank else line
    if 35 ∈ line then (line.takeWhile fun c => c != 35) :: joinLines false rest
    else if unpaired line then
      match joinLines true rest with
      | [] => [line.dropLast]
      | next :: lines => (line.dropLast ++ next) :: lines
    else line :: joinLines false rest

section
variable {text : Str} {c d : UInt8} {lines : List (List Str)} {pieces : List Str} {joined : Bool}

theorem unpaired_cons (other : c ≠ 92) : unpaired (c :: text) = unpaired text := by
  unfold unpaired
  rw [List.reverse_cons, List.takeWhile_append, List.takeWhile_cons_of_neg (by simpa using other), List.append_nil]
  split
  · rename_i whole
    rw [whole]
  · rfl

theorem unpaired_pair : unpaired (92 :: d :: text) = unpaired text := by
  unfold unpaired
  rw [List.reverse_cons, List.reverse_cons, List.append_assoc, List.takeWhile_append]
  split
  · rename_i whole
    rw [List.length_append, ← whole]
    by_cases pair : d = 92
    · subst pair
      simp
    · simp [pair]
  · rfl

theorem unpaired_blanks {blanks : Str} (blank : ∀ c ∈ blanks, isBlank c = true) (text : Str) :
    unpaired (blanks ++ text) = unpaired text := by
  induction blanks with
  | nil => rfl
  | cons c blanks ih =>
    obtain ⟨first, later⟩ := List.forall_mem_cons.mp blank
    have other : c ≠ 92 := by
      rintro rfl
      cases first
    rw [List.cons_append, unpaired_cons other, ih later]

/-- A text without newlines, carriage returns and hash signs is stored as it is, but for a backslash at its end that
still looks for its second byte. -/
theorem run_text (text : Str) (plain : ∀ c ∈ text, c ≠ 10 ∧ c ≠ 13 ∧ c ≠ 35) : ∃ more,
    Scan.run ⟨lines, pieces, .text⟩ text = ⟨lines, pieces ++ more, if unpaired text then .quoted else .text⟩ ∧
      more.flatten = if unpaired text then text.dropLast else text := by
  induction size : text.length using Nat.strongRecOn generalizing text pieces with
  | _ n ih =>
    have proceed {piece rest : Str} (shorter : rest.length < n) (later : ∀ c ∈ rest, c ≠ 10 ∧ c ≠ 13 ∧ c ≠ 35)
        (moves : Scan.run ⟨lines, pieces, .text⟩ (piece ++ rest) = Scan.run ⟨lines, pieces ++ [piece], .text⟩ rest)
        (same : unpaired (piece ++ rest) = unpaired rest) : ∃ more,
        Scan.run ⟨lines, pieces, .text⟩ (piece ++ rest) =
            ⟨lines, pieces ++ more, if unpaired (piece ++ rest) then .quoted else .text⟩ ∧
          more.flatten = if unpaired (piece ++ rest) then (piece ++ rest).dropLast else piece ++ rest := by
      obtain ⟨more, ran, stored⟩ := @ih rest.length shorter (pieces ++ [piece]) rest later rfl
      rw [moves, ran, same, List.append_assoc]
      refine ⟨piece :: more, rfl, ?_⟩
      rw [List.flatten_cons, stored]
      split
      · rename_i open_
        have some_ : rest ≠ [] := by
          rintro rfl
          cases open_
        rw [List.dropLast_append_of_ne_nil some_]
      · rfl
    cases text with
    | nil => exact ⟨[], by simp [Scan.run, unpaired], rfl⟩
    | cons c rest =>
      obtain ⟨⟨newline, cr, hash⟩, later⟩ := List.forall_mem_cons.mp plain
      rw [List.length_cons] at size
      by_cases escape : c = 92
      · subst escape
        cases rest with
        | nil => exact ⟨[], by simp [Scan.run, Scan.step, scanAct, unpaired], rfl⟩
        | cons d rest =>
          obtain ⟨⟨newline, cr, hash⟩, later⟩ := List.forall_mem_cons.mp later
          rw [List.length_cons] at size
          have moves : Scan.run ⟨lines, pieces, .text⟩ ([92, d] ++ rest) = Scan.run ⟨lines, pieces ++ [[92, d]], .text⟩ rest := by
            simp [run_cons, Scan.step, scanAct, newline, cr, hash]
          exact proceed (by omega) later moves unpaired_pair
      · have moves : Scan.run ⟨lines, pieces, .text⟩ ([c] ++ rest) = Scan.run ⟨lines, pieces ++ [[c]], .text⟩ rest := by
          simp [run_cons, Scan.step, scanAct, newline, cr, hash, escape]
        exact proceed (by omega) later moves (unpaired_cons escape)

theorem run_comment {stream : Str} (text : Str) (plain : 10 ∉ text) :
    Scan.run ⟨lines, pieces, .comment⟩ (text ++ 10 :: stream) = Scan.run ⟨lines ++ [pieces ++ [[10]]], [], .text⟩ stream := by
  rw [run_append, run_skipped plain]
  rfl

theorem run_blanks {stream : Str} (line : Str) : Scan.run ⟨lines, pieces, .joined⟩ (line ++ 10 :: stream) =
    Scan.run ⟨lines, pieces, .text⟩ (line.dropWhile isBlank ++ 10 :: stream) := by
  induction line with
  | nil => rfl
  | cons c line ih =>
    by_cases blank : isBlank c = true
    · rw [List.dropWhile_cons_of_pos blank, ← ih, List.cons_append, run_cons]
      have stays : Scan.step ⟨lines, pieces, .joined⟩ c = ⟨lines, pieces, .joined⟩ := by
        unfold isBlank at blank
        simp [Scan.step, scanAct, by simpa using blank]
      rw [stays]
    · rw [List.dropWhile_cons_of_neg blank, List.cons_append, run_cons, run_cons]
      have same : Scan.step ⟨lines, pieces, .joined⟩ c = Scan.step ⟨lines, pieces, .text⟩ c := by
        unfold Scan.step
        dsimp only
        have other : c ≠ 9 ∧ c ≠ 32 := by simpa [isBlank] using blank
        rw [@likeText_act stream .joined c (Or.inr (Or.inl ⟨rfl, fun d first => by cases first; exact other⟩))]
      rw [same]

theorem run_finished (pieces : List Str) (stream : Str) :
    (Scan.run ⟨[pieces], [], .text⟩ stream).lines ++ (Scan.run ⟨[pieces], [], .text⟩ stream).last =
      pieces :: logicalLines stream := by
  rw [run_behind]
  rfl

def Physical (text : Str) : Prop :=
  (∀ c ∈ text, c ≠ 0 ∧ c ≠ 10 ∧ c ≠ 13) ∧ ∀ n < text.length, text[n]? = some 35 → unpaired (text.take n) = false

instance (text : Str) : Decidable (Physical text) :=
  inferInstanceAs (Decidable ((∀ c ∈ text, c ≠ 0 ∧ c ≠ 10 ∧ c ≠ 13) ∧
    ∀ n < text.length, text[n]? = some 35 → unpaired (text.take n) = false))

theorem Physical.hash {before behind : Str} (admitted : Physical (before ++ 35 :: behind)) : unpaired before = false := by
  have inside : before.length < (before ++ 35 :: behind).length := by
    rw [List.length_append, List.length_cons]
    omega
  have unescaped := admitted.2 before.length inside (by simp)
  rwa [List.take_left] at unescaped

theorem Physical.behind {blanks : Str} (blank : ∀ c ∈ blanks, isBlank c = true) (admitted : Physical (blanks ++ text)) :
    Physical text := by
  obtain ⟨plain, comments⟩ := admitted
  refine ⟨fun c member => plain c (List.mem_append_right _ member), fun n inside hash => ?_⟩
  have unescaped := comments (blanks.length + n) (by rw [List.length_append]; omega) (by
    rwa [List.getElem?_append_right (Nat.le_add_right _ _), Nat.add_sub_cancel_left])
  rwa [List.take_append, List.take_of_length_le (Nat.le_add_right _ _), Nat.add_sub_cancel_left,
    unpaired_blanks blank] at unescaped

theorem joined_text (line : Str) : ∃ blanks, line = blanks ++ (if joined then line.dropWhile isBlank else line) ∧
    ∀ c ∈ blanks, isBlank c = true := by
  cases joined with
  | false => exact ⟨[], rfl, by simp⟩
  | true =>
    refine ⟨line.takeWhile isBlank, List.takeWhile_append_dropWhile.symm, fun c member => ?_⟩
    exact List.mem_takeWhile_imp member

theorem joinLines_some {physical : List Str} (some_ : physical ≠ []) : joinLines joined physical ≠ [] := by
  cases physical with
  | nil => exact absurd rfl some_
  | cons line rest =>
    unfold joinLines
    dsimp only
    generalize (if joined then line.dropWhile isBlank else line) = text
    split
    · exact List.cons_ne_nil _ _
    split
    · split <;> exact List.cons_ne_nil _ _
    · exact List.cons_ne_nil _ _

/-- The scanner joins the physical lines as the grammar does. -/
theorem run_joined (physical : List Str) (admitted : ∀ line ∈ physical, Physical line)
    (ends : ∀ line ∈ physical.getLast?, unpaired line = false) (closed : physical = [] → joined = false ∧ pieces = []) :
    let scan := Scan.run ⟨[], pieces, if joined then .joined else .text⟩ (physicalText physical)
    (scan.lines ++ scan.last).map List.flatten =
      ((joinLines joined physical).map fun line => line ++ [10]).modifyHead (pieces.flatten ++ ·) := by
  induction physical generalizing joined pieces with
  | nil =>
    obtain ⟨rfl, rfl⟩ := closed rfl
    rfl
  | cons line rest ih =>
    obtain ⟨first, admitted⟩ := List.forall_mem_cons.mp admitted
    have later : ∀ line ∈ rest.getLast?, unpaired line = false := by
      intro line member
      cases rest with
      | nil => cases member
      | cons next rest => exact ends line (by rwa [List.getLast?_cons_cons])
    have start (stream : Str) : Scan.run ⟨[], pieces, if joined then .joined else .text⟩ (line ++ [10] ++ stream) =
        Scan.run ⟨[], pieces, .text⟩ ((if joined then line.dropWhile isBlank else line) ++ 10 :: stream) := by
      rw [List.append_assoc]
      cases joined with
      | false => rfl
      | true => exact run_blanks line
    obtain ⟨blanks, whole, blank⟩ := @joined_text joined line
    rw [physicalText_cons, start]
    unfold joinLines
    dsimp only
    generalize (if joined then line.dropWhile isBlank else line) = text at whole ⊢
    rw [whole] at first
    have same : unpaired line = unpaired text := by rw [whole, unpaired_blanks blank]
    have admitted_ := first.behind blank
    have complete := @ih [] false admitted later (fun _ => ⟨rfl, rfl⟩)
    have id_ (lines : List Str) : lines.modifyHead (List.flatten [] ++ ·) = lines := by cases lines <;> rfl
    dsimp only at complete
    rw [if_neg Bool.false_ne_true, id_] at complete
    by_cases hash : 35 ∈ text
    · obtain ⟨before, behind, rfl, unhashed⟩ := List.eq_append_cons_of_mem hash
      have front : (before ++ 35 :: behind).takeWhile (fun c => c != 35) = before := by
        rw [List.takeWhile_append_of_pos fun c member => by simpa using ne_of_mem_of_not_mem member unhashed,
          List.takeWhile_cons_of_neg (by simp), List.append_nil]
      obtain ⟨plain, behind_⟩ := List.forall_mem_append.mp admitted_.1
      obtain ⟨more, ran, stored⟩ := @run_text [] pieces before fun c member =>
        ⟨(plain c member).2.1, (plain c member).2.2, ne_of_mem_of_not_mem member unhashed⟩
      rw [admitted_.hash] at ran stored
      rw [if_pos hash, front, List.append_assoc, run_append, ran]
      have comment : Scan.step ⟨[], pieces ++ more, .text⟩ 35 = ⟨[], pieces ++ more, .comment⟩ := rfl
      rw [if_neg Bool.false_ne_true, List.cons_append, run_cons, comment,
        run_comment behind fun newline => (behind_ 10 (List.mem_cons_of_mem _ newline)).2.1 rfl, List.nil_append, run_finished]
      rw [List.map_cons, List.map_cons, List.modifyHead_cons, ← complete]
      simp [stored, logicalLines]
    · have plain : ∀ c ∈ text, c ≠ 10 ∧ c ≠ 13 ∧ c ≠ 35 := fun c member =>
        ⟨(admitted_.1 c member).2.1, (admitted_.1 c member).2.2, ne_of_mem_of_not_mem member hash⟩
      obtain ⟨more, ran, stored⟩ := @run_text [] pieces text plain
      rw [if_neg hash, run_append, ran, run_cons]
      by_cases open_ : unpaired text = true
      · have continues : rest ≠ [] := by
          rintro rfl
          rw [ends line rfl] at same
          exact absurd open_ (by rw [← same]; exact Bool.false_ne_true)
        have joins : Scan.step ⟨[], pieces ++ more, .quoted⟩ 10 = ⟨[], pieces ++ more, .joined⟩ := rfl
        have whole := @ih (pieces ++ more) true admitted later fun none => absurd none continues
        dsimp only at whole
        rw [if_pos rfl] at whole
        rw [if_pos open_] at stored
        rw [if_pos open_, if_pos open_, joins, whole, List.flatten_append, stored]
        cases lines : joinLines true rest with
        | nil => exact absurd lines (joinLines_some continues)
        | cons next lines => simp
      · have newline : Scan.step ⟨[], pieces ++ more, .text⟩ 10 = ⟨[pieces ++ more ++ [[10]]], [], .text⟩ := rfl
        rw [if_neg open_] at stored
        rw [if_neg open_, if_neg open_, newline, run_finished, List.map_cons, List.map_cons, List.modifyHead_cons, ← complete]
        simp [stored, logicalLines]

theorem joinLines_bytes {P : UInt8 → Prop} {physical : List Str} (bytes : ∀ line ∈ physical, ∀ c ∈ line, P c) :
    ∀ line ∈ joinLines joined physical, ∀ c ∈ line, P c := by
  induction physical generalizing joined with
  | nil => simp [joinLines]
  | cons line rest ih =>
    obtain ⟨here, later⟩ := List.forall_mem_cons.mp bytes
    obtain ⟨blanks, whole, -⟩ := @joined_text joined line
    unfold joinLines
    dsimp only
    generalize (if joined then line.dropWhile isBlank else line) = text at whole ⊢
    have own : ∀ c ∈ text, P c := fun c member => here c (whole ▸ List.mem_append_right _ member)
    split
    · exact List.forall_mem_cons.mpr ⟨fun c member => own c (List.takeWhile_sublist _ |>.subset member), ih later⟩
    split
    · have behind := @ih true later
      split
      · exact List.forall_mem_singleton.mpr fun c member => own c (List.dropLast_subset _ member)
      · rename_i next lines same
        rw [same] at behind
        obtain ⟨next_, lines_⟩ := List.forall_mem_cons.mp behind
        refine List.forall_mem_cons.mpr ⟨List.forall_mem_append.mpr ⟨fun c member => own c (List.dropLast_subset _ member), next_⟩, lines_⟩
    · exact List.forall_mem_cons.mpr ⟨own, ih later⟩

theorem lineText_newline {line : Str} (plain : ∀ c ∈ line, c ≠ 0) (last : line.getLast? ≠ some 13)
    (whole : pieces.flatten = line ++ [10]) : lineText pieces = line := by
  unfold lineText
  rw [whole, terminate_newline last]
  exact strAt_append [] line [0] rfl plain

theorem lineTexts_newline {texts : List Str} (same : lines.map List.flatten = texts.map fun text => text ++ [10])
    (plain : ∀ text ∈ texts, ∀ c ∈ text, c ≠ 0 ∧ c ≠ 10 ∧ c ≠ 13) : lines.map lineText = texts := by
  induction texts generalizing lines with
  | nil =>
    rw [List.map_nil, List.map_eq_nil_iff] at same
    rw [same]
    rfl
  | cons text texts ih =>
    obtain ⟨here, later⟩ := List.forall_mem_cons.mp plain
    cases lines with
    | nil => cases same
    | cons line lines =>
      rw [List.map_cons, List.map_cons, List.cons.injEq] at same
      have last : text.getLast? ≠ some 13 := fun cr => (here 13 (List.mem_of_getLast? cr)).2.2 rfl
      rw [List.map_cons, lineText_newline (fun c member => (here c member).1) last same.1, ih same.2 later]

end

/-- The calls return the lines that the grammar puts together, if these are shorter than the buffer. -/
theorem lines_joined (size : Nat) (buf : Buffer) (physical : List Str) (admitted : ∀ line ∈ physical, Physical line)
    (ends : ∀ line ∈ physical.getLast?, unpaired line = false)
    (short : ∀ line ∈ joinLines false physical, line.length < size - 2) (enough : 2 < size) :
    lifFgetlines size ((physicalText physical).length + 1) buf (physicalText physical) = some (joinLines false physical) := by
  generalize text : physicalText physical = stream
  obtain ⟨lines, calls, -, whole, -⟩ := lifFgetlines_calls enough buf stream (Nat.lt_succ_self _)
  have joined : (logicalLines stream).map List.flatten = (joinLines false physical).map fun line => line ++ [10] := by
    have run := @run_joined [] false physical admitted ends fun _ => ⟨rfl, rfl⟩
    have id_ (lines : List Str) : lines.modifyHead (List.flatten [] ++ ·) = lines := by cases lines <;> rfl
    dsimp only at run
    rw [if_neg Bool.false_ne_true, id_, text] at run
    exact run
  have bytes := @joinLines_bytes false _ _ fun line member => (admitted line member).1
  have fit : ∀ line ∈ logicalLines stream, Fits (size - 2) line := by
    intro line member
    refine fits_length (logicalLines_filled member) ?_
    have flat : line.flatten ∈ (logicalLines stream).map List.flatten := List.mem_map_of_mem member
    rw [joined] at flat
    obtain ⟨text, listed, same⟩ := List.mem_map.mp flat
    have shorter := short text listed
    rw [← same, List.length_append, List.length_singleton]
    omega
  rw [calls, whole fit]
  rw [lineTexts_newline joined bytes]

/-- A line that goes on behind a backslash and ends in a comment, and one that ends in a pair of backslashes. -/
def joinedLines : List Str := [str "auto \\", str "\tlo # loopback", str "up echo \\\\"]

theorem lines_joined_joinedLines : lifFgetlines 4096 ((physicalText joinedLines).length + 1) [] (physicalText joinedLines) =
    some [str "auto lo ", str "up echo \\\\"] := by
  have admitted : ∀ line ∈ joinedLines, Physical line := by decide +kernel
  have ends : ∀ line ∈ joinedLines.getLast?, unpaired line = false := by decide +kernel
  have short : ∀ line ∈ joinLines false joinedLines, line.length < 4096 - 2 := by decide +kernel
  have lines : joinLines false joinedLines = [str "auto lo ", str "up echo \\\\"] := by decide +kernel
  exact (lines_joined 4096 [] joinedLines admitted ends short (by decide)).trans (congrArg some lines)

end Ifupdown
