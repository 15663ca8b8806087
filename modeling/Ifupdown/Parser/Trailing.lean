import Mathlib.Data.List.DropRight
import Ifupdown.Model.LineEnds
import Ifupdown.Parser.Isolation
import Ifupdown.Parser.Lines

/-! The lines of a file in which one line has got blanks and a comment behind it. -/
namespace Ifupdown

def trimmed (line : Str) : Str := line.rdropWhile endsWord

/-- What is read of a line is the same, or has got blanks at its end. A blank line may come where there has been none. -/
inductive Padded : List Str → List Str → Prop
  | same (lines : List Str) : Padded lines lines
  | blank {line : Str} : trimmed line = [] → Padded [] [line]
  | longer {line line' : Str} : trimmed line' = trimmed line → line'.getLast?.any endsWord = true → Padded [line] [line']

/-- A line of a stream, and what is added in front of its end. Where the stream ends without a newline, no comment is. -/
structure Extends (line extra eol behind : Str) : Prop where
  trailing : Trailing extra
  single : (Scan.run {} line).lines = []
  unescaped : scanAct (Scan.run {} line).mode 10 = .finish .text
  ends : LineEnd (Scan.run {} (line ++ extra)).mode eol behind
  last : eol = [] → (Scan.run {} (line ++ extra)).mode = (Scan.run {} line).mode
  short : (Scan.run {} (line ++ extra)).pieces.flatten.length < 4094

def endLine (mode : ScanMode) (eol text : Str) : List Str :=
  if eol ≠ [] then [(terminate (text ++ [10])).dropLast]
  else if mode = .comment then [(terminate (text ++ [255])).dropLast]
  else if text = [] then [] else [(terminate text).dropLast]

section
variable {line line' text gap eol extra behind : Str} {mode mode' : ScanMode} {pieces : List Str}

theorem trimmed_append (ends : ∀ c ∈ gap, endsWord c = true) : trimmed (text ++ gap) = trimmed text := by
  unfold trimmed List.rdropWhile
  rw [List.reverse_append, List.dropWhile_append_of_pos fun c member => ends c (List.mem_reverse.mp member)]

theorem trimmed_split (line : Str) : ∃ gap, line = trimmed line ++ gap ∧ ∀ c ∈ gap, endsWord c = true :=
  ⟨line.rtakeWhile endsWord, List.rdropWhile_append_rtakeWhile.symm, fun _ => List.mem_rtakeWhile_imp⟩

theorem isBlank_ends {c : UInt8} (blank : isBlank c = true) : endsWord c = true := by
  have which : c = 9 ∨ c = 32 := by simpa [isBlank] using blank
  rcases which with rfl | rfl <;> rfl

/-- What is stored of a line, up to its last NUL, is the line but for the newline at its end. -/
theorem terminate_cases (line : Str) : (terminate line).dropLast = line ∨
    ∃ text newline zeros, line = text ++ newline ∧ (terminate line).dropLast = text ++ zeros ++ [0] ∧
      ∀ c ∈ newline ++ zeros, endsWord c = true := by
  have back : line = line.reverse.reverse := (List.reverse_reverse line).symm
  unfold terminate
  split
  · rename_i rest same
    rw [same, List.reverse_cons, List.reverse_cons, List.append_assoc] at back
    exact Or.inr ⟨rest.reverse, [13, 10], [0], back, by simp, by simp [endsWord, isSpace]⟩
  · rename_i rest other same
    rw [same, List.reverse_cons] at back
    exact Or.inr ⟨rest.reverse, [10], [], back, by simp, by simp [endsWord, isSpace]⟩
  · exact Or.inl (List.dropLast_concat ..)

theorem terminate_trimmed (line : Str) : trimmed (terminate line).dropLast = trimmed line := by
  rcases terminate_cases line with same | ⟨text, newline, zeros, same, stored, ends⟩
  · rw [same]
  · obtain ⟨first, second⟩ := List.forall_mem_append.mp ends
    rw [stored, trimmed_append (by simp [endsWord]), trimmed_append second, same, trimmed_append first]

theorem terminate_ended (ended : line.getLast?.any endsWord = true) : (terminate line).dropLast.getLast?.any endsWord = true := by
  rcases terminate_cases line with same | ⟨text, newline, zeros, -, stored, -⟩
  · rwa [same]
  · rw [stored, List.getLast?_concat]
    rfl

theorem fileLines_end (ran : Scan.run {} line = ⟨[], pieces, mode⟩) (unescaped : scanAct mode 10 = .finish .text)
    (ends : LineEnd mode eol behind) (short : pieces.flatten.length < 4094) :
    fileLines (line ++ eol ++ behind) = endLine mode eol pieces.flatten ++ fileLines behind := by
  have front : fgetlineLoop 4094 false false [] (line ++ eol ++ behind) = loopFrom 4094 mode pieces.flatten (eol ++ behind) := by
    rw [List.append_assoc]
    exact @loopFrom_run 4094 .text mode (eol ++ behind) line [] pieces ran short
  rw [fileLines_step, front]
  unfold endLine
  by_cases filled : eol ≠ []
  · rw [loopFrom_end ends unescaped filled short, if_pos filled]
    rfl
  · rw [if_neg filled]
    obtain rfl := not_not.mp filled
    obtain rfl : behind = [] := by
      cases ends
      rfl
    have none : fileLines [] = [] := rfl
    rw [List.append_nil, loopFrom_eof short, none]
    dsimp only
    split
    · simp [none]
    · simp [none]

theorem endLine_padded (blank : ∀ c ∈ gap, isBlank c = true) (none : mode = .text ∨ gap = [])
    (last : eol = [] → mode' = mode) : Padded (endLine mode eol text) (endLine mode' eol (text ++ gap)) := by
  have ends : ∀ c ∈ gap, endsWord c = true := fun c member => isBlank_ends (blank c member)
  unfold endLine
  by_cases filled : eol ≠ []
  · rw [if_pos filled, if_pos filled]
    have newline : ∀ c ∈ gap ++ [10], endsWord c = true := List.forall_mem_append.mpr ⟨ends, by simp [endsWord, isSpace]⟩
    refine .longer ?_ (terminate_ended ?_)
    · rw [terminate_trimmed, terminate_trimmed, List.append_assoc, trimmed_append newline,
        trimmed_append (by simp [endsWord, isSpace])]
    · rw [List.getLast?_concat]
      rfl
  rw [if_neg filled, if_neg filled, last (not_not.mp filled)]
  by_cases empty : gap = []
  · rw [empty, List.append_nil]
    exact .same _
  have inside : mode ≠ .comment := by
    rw [none.resolve_right empty]
    decide
  have ended : (text ++ gap).getLast?.any endsWord = true := by
    rw [List.getLast?_append_of_ne_nil _ empty, List.getLast?_eq_some_getLast empty]
    exact ends _ (List.getLast_mem empty)
  rw [if_neg inside, if_neg inside, if_neg fun both => empty (List.append_eq_nil_iff.mp both).2]
  split
  · rename_i nothing
    subst nothing
    refine .blank ?_
    rw [terminate_trimmed, trimmed_append ends]
    rfl
  · refine .longer ?_ (terminate_ended ended)
    rw [terminate_trimmed, terminate_trimmed, trimmed_append ends]

theorem LineEnd.alone (ends : LineEnd mode eol behind) : LineEnd mode eol [] := by
  cases ends with
  | newline => exact .newline []
  | crlf => exact .crlf []
  | cr other => exact .cr other (by simp)
  | eof => exact .eof

/-- The line is read with blanks behind it, or as it was. -/
theorem Extends.padded (whole : Extends line extra eol behind) :
    fileLines (line ++ eol ++ behind) = fileLines (line ++ eol) ++ fileLines behind ∧
      fileLines (line ++ extra ++ eol ++ behind) = fileLines (line ++ extra ++ eol) ++ fileLines behind ∧
      Padded (fileLines (line ++ eol)) (fileLines (line ++ extra ++ eol)) := by
  obtain ⟨trailing, single, unescaped, ends, last, short⟩ := whole
  rw [run_append] at ends last short
  generalize start : Scan.run {} line = scan at single unescaped ends last short
  obtain ⟨lines, pieces, mode⟩ := scan
  obtain rfl : lines = [] := single
  obtain ⟨gap, mode', ran, blank, none, comment⟩ := @run_trailing mode [] pieces extra trailing unescaped
  rw [ran] at ends last short
  dsimp only at unescaped ends last short
  have unescaped' : scanAct mode' 10 = .finish .text := by
    rcases comment with rfl | rfl
    · exact unescaped
    · rfl
  have plain : LineEnd mode eol behind := by
    cases ends with
    | newline => exact .newline behind
    | crlf => exact .crlf behind
    | cr other single => exact .cr (by rwa [← comment.resolve_right other]) single
    | eof => exact .eof
  have fits : pieces.flatten.length < 4094 := by
    rw [List.flatten_append, List.length_append] at short
    omega
  have ran' : Scan.run {} (line ++ extra) = ⟨[], pieces ++ gap, mode'⟩ := by rw [run_append, start, ran]
  have alone {line : Str} {mode : ScanMode} {pieces : List Str} (ran : Scan.run {} line = ⟨[], pieces, mode⟩)
      (unescaped : scanAct mode 10 = .finish .text) (ends : LineEnd mode eol behind) (short : pieces.flatten.length < 4094) :
      fileLines (line ++ eol) = endLine mode eol pieces.flatten := by
    have only := fileLines_end ran unescaped ends.alone short
    rw [List.append_nil] at only
    exact only.trans (List.append_nil _)
  rw [alone start unescaped plain fits, alone ran' unescaped' ends short]
  refine ⟨fileLines_end start unescaped plain fits, fileLines_end ran' unescaped' ends short, ?_⟩
  rw [List.flatten_append]
  exact endLine_padded blank (none.imp_right fun empty => by rw [empty]; rfl) last

theorem trimmed_words (trim : trimmed line' = trimmed line) : (nextWord line').1 = (nextWord line).1 ∧
    secondWord line' = secondWord line ∧
    (wordCalls (line'.length + 1) 0 line').map Prod.fst = (wordCalls (line.length + 1) 0 line).map Prod.fst := by
  have front (line : Str) : (nextWord line).1 = (nextWord (trimmed line)).1 ∧ secondWord line = secondWord (trimmed line) ∧
      (wordCalls (line.length + 1) 0 line).map Prod.fst =
        (wordCalls ((trimmed line).length + 1) 0 (trimmed line)).map Prod.fst := by
    obtain ⟨gap, same, ends⟩ := trimmed_split line
    have first := (@nextWord_gap (trimmed line) gap ends).1
    have second := @secondWord_gap (trimmed line) gap ends
    have words := @wordCalls_gap (trimmed line) gap (line.length + 1) ((trimmed line).length + 1) 0 0 ends
      (by rw [← same]; exact Nat.lt_succ_self _) (Nat.lt_succ_self _)
    rw [← same] at first second words
    exact ⟨first, second, words⟩
  obtain ⟨first, second, words⟩ := front line
  obtain ⟨first', second', words'⟩ := front line'
  rw [first, first', second, second', words, words', trim]
  exact ⟨rfl, rfl, rfl⟩

theorem ended_ends {state : ParseState} (buffer : state.linebuf = line ++ 0 :: behind) (ended : line.getLast?.any endsWord = true) :
    Visit.Ends ⟨line, state⟩ := by
  have follows (some_ : (nextWord line).1 ≠ []) : followed line = true := by
    obtain ⟨blanks, word, rest, splits⟩ := splits_exists line
    rw [splits.nextWord] at some_
    rw [followed, splits.behind_eq]
    cases rest with
    | nil =>
      have last := List.getLast_mem some_
      rw [splits.text_eq, List.append_nil, List.getLast?_append_of_ne_nil _ some_, List.getLast?_eq_some_getLast some_] at ended
      simp [endsWord, splits.solid _ last] at ended
    | cons c rest =>
      rw [List.any_append, List.any_cons, splits.ended c rfl, Bool.true_or, Bool.or_true]
  have some_ (other : state.kind ≠ .blank) : (nextWord line).1 ≠ [] := by
    have token := kind_token other
    rwa [nextToken_token, List.drop_zero, buffer, (nextWord_line line behind).1] at token
  unfold Visit.Ends
  dsimp only
  cases kind : state.kind with
  | blank => trivial
  | generic => exact Or.inr (follows (some_ (by rw [kind]; simp)))
  | keyword parserkw =>
    cases parserkw with
    | iface =>
      show settles line = true
      unfold settles
      rw [ended, Bool.true_or]
    | address | auto | hostname | gateway | inherit | source | sourceDirectory | use => exact follows (some_ (by rw [kind]; simp))

end

end Ifupdown
