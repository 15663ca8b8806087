import Ifupdown.Model.LineEnds
import Ifupdown.Model.LineCalls

/-! Files whose lines end with a carriage return and a newline. -/
namespace Ifupdown

/-- The text with a carriage return in front of each newline. -/
def crlf (text : Str) : Str := text.flatMap fun c => if c = 10 then [13, 10] else [c]

def physicalLines (text : Str) : List Str := (text.splitOn 10).dropLast

/-- The newline behind this line is escaped: the line ends in a backslash that is neither the second one of a pair nor in a
comment. -/
def escapes : Str → Bool
  | [] => false
  | [c] => c == 92
  | c :: d :: rest => if c = 92 then escapes rest else if c = 35 then false else escapes (d :: rest)

/-- The line has nothing but escaped hash signs in front of the backslash at its end. -/
def bare : Str → Bool
  | [] => false
  | [c] => c == 92
  | c :: d :: rest => c == 92 && d == 35 && bare rest

/-- Only the newline at the end of the text may be escaped, and only if something is stored of its line. -/
def Unjoined (text : Str) : Prop :=
  (∀ line ∈ (physicalLines text).dropLast, escapes line = false) ∧ ∀ line ∈ (physicalLines text).getLast?, bare line = false

instance (text : Str) : Decidable (Unjoined text) :=
  inferInstanceAs (Decidable ((∀ line ∈ _, escapes line = false) ∧ ∀ line ∈ _, bare line = false))

def crlfText (physical : List Str) : Str := physical.flatMap fun line => line ++ [13, 10]

theorem crlfText_cons (line : Str) (physical : List Str) :
    crlfText (line :: physical) = line ++ [13, 10] ++ crlfText physical := List.flatMap_cons

section
variable {text line stream : Str} {physical : List Str} {lines : List (List Str)} {pieces : List Str} {c : UInt8}

theorem crlf_plain (plain : 10 ∉ line) : crlf line = line := by
  induction line with
  | nil => rfl
  | cons c line ih =>
    obtain ⟨other, plain⟩ := not_or.mp (fun h => plain (List.mem_cons.mpr h))
    unfold crlf at ih ⊢
    rw [List.flatMap_cons, ih plain, if_neg (Ne.symm other)]
    rfl

theorem crlf_physical (plain : ∀ line ∈ physical, 10 ∉ line) : crlf (physicalText physical) = crlfText physical := by
  induction physical with
  | nil => rfl
  | cons line physical ih =>
    obtain ⟨first, later⟩ := List.forall_mem_cons.mp plain
    have front := crlf_plain first
    have behind := ih later
    unfold crlf at front behind ⊢
    rw [physicalText_cons, crlfText_cons, List.flatMap_append, List.flatMap_append, front, behind, List.flatMap_singleton]
    rfl

theorem splitOn_physical (plain : ∀ line ∈ physical, 10 ∉ line) : physicalLines (physicalText physical) = physical := by
  have split_ : (physicalText physical).splitOn 10 = physical ++ [[]] := by
    induction physical with
    | nil => rfl
    | cons line physical ih =>
      obtain ⟨first, later⟩ := List.forall_mem_cons.mp plain
      rw [physicalText_cons, List.append_assoc, List.singleton_append, List.splitOn_append_cons_self_of_not_mem first, ih later,
        List.cons_append]
  rw [physicalLines, split_, List.dropLast_concat]

theorem exists_physical (text : Str) : ∃ physical rest, text = physicalText physical ++ rest ∧ 10 ∉ rest ∧ ∀ line ∈ physical, 10 ∉ line := by
  induction text with
  | nil => exact ⟨[], [], rfl, by simp, by simp⟩
  | cons c text ih =>
    obtain ⟨physical, rest, rfl, inside, plain⟩ := ih
    by_cases newline : c = 10
    · subst newline
      exact ⟨[] :: physical, rest, rfl, inside, List.forall_mem_cons.mpr ⟨by simp, plain⟩⟩
    · cases physical with
      | nil => exact ⟨[], c :: rest, rfl, by simp [Ne.symm newline, inside], by simp⟩
      | cons line physical =>
        obtain ⟨first, later⟩ := List.forall_mem_cons.mp plain
        exact ⟨(c :: line) :: physical, rest, rfl, inside, List.forall_mem_cons.mpr ⟨by simp [Ne.symm newline, first], later⟩⟩

theorem physical_lines (ends : text.getLast? = some 10) :
    ∃ init last, text = physicalText (init ++ [last]) ∧ ∀ line ∈ init ++ [last], 10 ∉ line := by
  obtain ⟨physical, rest, rfl, inside, plain⟩ := exists_physical text
  have whole : rest = [] := by
    rcases List.eq_nil_or_concat rest with none | ⟨front, last, rfl⟩
    · exact none
    · rw [List.concat_eq_append, ← List.append_assoc, List.getLast?_concat, Option.some_inj] at ends
      exact absurd (by simp [ends]) inside
  subst whole
  rcases List.eq_nil_or_concat physical with rfl | ⟨init, last, rfl⟩
  · cases ends
  · rw [List.concat_eq_append, List.append_nil] at *
    exact ⟨init, last, rfl, plain⟩

/-- What the scanner makes of a physical line does not depend on what it has stored. -/
theorem run_physical (plain : ∀ c ∈ line, c ≠ 10 ∧ c ≠ 13) : ∃ more mode, (∀ (lines : List (List Str)) (pieces : List Str),
      Scan.run ⟨lines, pieces, .text⟩ line = ⟨lines, pieces ++ more, mode⟩) ∧
    (escapes line = true → mode = .quoted) ∧ (escapes line = false → mode = .text ∨ mode = .comment) ∧
    (bare line = true ↔ escapes line = true ∧ more = []) := by
  fun_induction escapes line with
  | case1 => exact ⟨[], .text, fun lines pieces => by simp [Scan.run], by simp [bare]⟩
  | case2 c =>
    obtain ⟨newline, cr⟩ := plain c List.mem_cons_self
    by_cases escape : c = 92
    · subst escape
      exact ⟨[], .quoted, fun lines pieces => by simp [Scan.run, Scan.step, scanAct], by simp [bare]⟩
    by_cases hash : c = 35
    · subst hash
      exact ⟨[], .comment, fun lines pieces => by simp [Scan.run, Scan.step, scanAct], by simp [bare]⟩
    · exact ⟨[[c]], .text, fun lines pieces => by simp [Scan.run, Scan.step, scanAct, newline, cr, escape, hash],
        by simp [bare, escape]⟩
  | case3 d rest ih =>
    obtain ⟨-, plain⟩ := List.forall_mem_cons.mp plain
    obtain ⟨⟨newline, cr⟩, plain⟩ := List.forall_mem_cons.mp plain
    obtain ⟨more, mode, ran, quoted, other, empty⟩ := ih plain
    by_cases hash : d = 35
    · subst hash
      refine ⟨more, mode, fun lines pieces => ?_, quoted, other, by rw [← empty]; simp [bare]⟩
      rw [← ran]
      simp [run_cons, Scan.step, scanAct]
    · refine ⟨[92, d] :: more, mode, fun lines pieces => ?_, quoted, other, by simp [bare, hash]⟩
      have stored := ran lines (pieces ++ [[92, d]])
      rw [List.append_assoc, List.singleton_append] at stored
      refine Eq.trans ?_ stored
      simp [run_cons, Scan.step, scanAct, newline, cr, hash]
  | case4 d rest other =>
    refine ⟨[], .comment, fun lines pieces => ?_, by simp, by simp, by simp [bare]⟩
    have inside : 10 ∉ d :: rest := fun member => (plain 10 (List.mem_cons_of_mem _ member)).1 rfl
    rw [run_cons, List.append_nil]
    exact run_skipped inside
  | case5 c d rest escape hash ih =>
    obtain ⟨⟨newline, cr⟩, plain⟩ := List.forall_mem_cons.mp plain
    obtain ⟨more, mode, ran, quoted, other, empty⟩ := ih plain
    refine ⟨[c] :: more, mode, fun lines pieces => ?_, quoted, other, by simp [bare, escape]⟩
    have stored := ran lines (pieces ++ [[c]])
    rw [List.append_assoc, List.singleton_append] at stored
    refine Eq.trans ?_ stored
    rw [run_cons]
    simp [Scan.step, scanAct, newline, cr, hash, escape]

theorem run_newline_plain (mode : ScanMode) (ends : mode = .text ∨ mode = .comment) :
    Scan.run ⟨lines, pieces, mode⟩ [10] = ⟨lines ++ [pieces ++ [[10]]], [], .text⟩ ∧
      Scan.run ⟨lines, pieces, mode⟩ [13, 10] = ⟨lines ++ [pieces ++ [[10]]], [], .text⟩ := by
  rcases ends with rfl | rfl <;> exact ⟨rfl, rfl⟩

/-- Where no newline is escaped, a carriage return in front of it changes nothing. -/
theorem run_unescaped (plain : ∀ line ∈ physical, ∀ c ∈ line, c ≠ 10 ∧ c ≠ 13) (unescaped : ∀ line ∈ physical, escapes line = false) :
    ∃ finished, Scan.run ⟨lines, [], .text⟩ (physicalText physical) = ⟨finished, [], .text⟩ ∧
      Scan.run ⟨lines, [], .text⟩ (crlfText physical) = ⟨finished, [], .text⟩ := by
  induction physical generalizing lines with
  | nil => exact ⟨lines, rfl, rfl⟩
  | cons line physical ih =>
    obtain ⟨first, plain⟩ := List.forall_mem_cons.mp plain
    obtain ⟨here, unescaped⟩ := List.forall_mem_cons.mp unescaped
    obtain ⟨more, mode, ran, -, ends, -⟩ := run_physical first
    obtain ⟨newline, cr⟩ := @run_newline_plain lines more mode (ends here)
    obtain ⟨finished, behind, behind'⟩ := @ih (lines ++ [more ++ [[10]]]) plain unescaped
    refine ⟨finished, ?_, ?_⟩
    · rw [physicalText_cons, run_append, run_append, ran, List.nil_append, newline, behind]
    · rw [crlfText_cons, run_append, run_append, ran, List.nil_append, cr, behind']

theorem run_broken (plain : ∀ line ∈ physical, ∀ c ∈ line, c ≠ 10 ∧ c ≠ 13 ∧ c ≠ 0) (some_ : physical ≠ [])
    (stored : 10 ∈ pieces.flatten) (bytes : ∀ c ∈ pieces.flatten, c ≠ 0 ∧ c ≠ 13) :
    ∃ text, text ++ [[10]] ∈ (Scan.run ⟨lines, pieces, .text⟩ (crlfText physical)).lines ++
        (Scan.run ⟨lines, pieces, .text⟩ (crlfText physical)).last ∧
      10 ∈ text.flatten ∧ ∀ c ∈ text.flatten, c ≠ 0 ∧ c ≠ 13 := by
  induction physical generalizing lines pieces with
  | nil => exact absurd rfl some_
  | cons line physical ih =>
    obtain ⟨first, plain⟩ := List.forall_mem_cons.mp plain
    obtain ⟨more, mode, ran, quoted, ends, -⟩ := run_physical fun c member => ⟨(first c member).1, (first c member).2.1⟩
    have kept : 10 ∈ (pieces ++ more).flatten := by
      rw [List.flatten_append]
      exact List.mem_append_left _ stored
    have bytes' : ∀ c ∈ (pieces ++ more).flatten, c ≠ 0 ∧ c ≠ 13 := by
      have zeros : 0 ∉ line := fun member => (first 0 member).2.2 rfl
      have run := @run_bytes ⟨lines, pieces, .text⟩ line zeros bytes
      rwa [ran] at run
    rw [crlfText_cons, run_append, run_append, ran]
    cases here : escapes line with
    | false =>
      rw [(run_newline_plain mode (ends here)).2]
      refine ⟨pieces ++ more, List.mem_append_left _ ?_, kept, bytes'⟩
      rw [run_behind]
      simp
    | true =>
      obtain rfl := quoted here
      have moves : Scan.run ⟨lines, pieces ++ more, .quoted⟩ [13, 10] = ⟨lines, pieces ++ more ++ [[10]], .text⟩ := rfl
      rw [moves]
      by_cases none : physical = []
      · subst none
        refine ⟨pieces ++ more, List.mem_append_right _ ?_, kept, bytes'⟩
        simp [crlfText, Scan.run, Scan.last]
      · refine @ih lines (pieces ++ more ++ [[10]]) plain none ?_ ?_
        · rw [List.flatten_append]
          exact List.mem_append_left _ kept
        · rw [List.flatten_append, List.forall_mem_append]
          exact ⟨bytes', by simp⟩

/-- The first escaped newline of the lines is stored, and does not stand at the end of its line. -/
theorem run_breaks {last : Str} (plain : ∀ line ∈ physical ++ [last], ∀ c ∈ line, c ≠ 10 ∧ c ≠ 13 ∧ c ≠ 0)
    (escaped : ∃ line ∈ physical, escapes line = true) :
    ∃ text, text ++ [[10]] ∈ (Scan.run ⟨lines, [], .text⟩ (crlfText (physical ++ [last]))).lines ++
        (Scan.run ⟨lines, [], .text⟩ (crlfText (physical ++ [last]))).last ∧
      10 ∈ text.flatten ∧ ∀ c ∈ text.flatten, c ≠ 0 ∧ c ≠ 13 := by
  induction physical generalizing lines with
  | nil => simp at escaped
  | cons line physical ih =>
    obtain ⟨first, plain⟩ := List.forall_mem_cons.mp plain
    obtain ⟨more, mode, ran, quoted, ends, -⟩ := run_physical fun c member => ⟨(first c member).1, (first c member).2.1⟩
    rw [List.cons_append, crlfText_cons, run_append, run_append, ran, List.nil_append]
    cases here : escapes line with
    | false =>
      rw [(run_newline_plain mode (ends here)).2]
      refine ih plain ?_
      obtain ⟨line', member, escape⟩ := escaped
      rcases List.mem_cons.mp member with rfl | member
      · exact absurd (here.symm.trans escape) Bool.false_ne_true
      · exact ⟨line', member, escape⟩
    | true =>
      obtain rfl := quoted here
      have moves : Scan.run ⟨lines, more, .quoted⟩ [13, 10] = ⟨lines, more ++ [[10]], .text⟩ := rfl
      have bytes := @run_bytes ⟨lines, [], .text⟩ line (fun member => (first 0 member).2.2 rfl) (by simp)
      rw [ran, List.nil_append] at bytes
      rw [moves]
      refine run_broken plain (by simp) (by simp) ?_
      rw [List.flatten_append, List.forall_mem_append]
      exact ⟨bytes, by simp⟩

def Flat (pieces : List Str) : Prop := ∀ c ∈ pieces.flatten, (c ≠ 0 ∧ c ≠ 13) ∧ c ≠ 10

theorem run_flat {scan : Scan} (plain : 0 ∉ stream ∧ 13 ∉ stream)
    (before : (∀ line ∈ scan.lines, ∃ text, line = text ++ [[10]] ∧ Flat text) ∧ Flat scan.pieces) :
    (∀ line ∈ (scan.run stream).lines, ∃ text, line = text ++ [[10]] ∧ Flat text) ∧ Flat (scan.run stream).pieces := by
  induction stream generalizing scan with
  | nil => exact before
  | cons c stream ih =>
    obtain ⟨zeros, crs⟩ := plain
    obtain ⟨zero, zeros⟩ := not_or.mp (fun h => zeros (List.mem_cons.mpr h))
    obtain ⟨cr, crs⟩ := not_or.mp (fun h => crs (List.mem_cons.mpr h))
    refine ih ⟨zeros, crs⟩ ?_
    unfold Scan.step
    split
    · exact before
    · rename_i piece mode act
      have stored : ∀ d ∈ piece, (d ≠ 0 ∧ d ≠ 13) ∧ d ≠ 10 := by
        unfold scanAct at act
        repeat' split at act
        all_goals cases act
        all_goals simp_all [Ne.symm zero]
      refine ⟨before.1, ?_⟩
      unfold Flat
      rw [List.flatten_append, List.flatten_singleton, List.forall_mem_append]
      exact ⟨before.2, stored⟩
    · refine ⟨?_, by simp [Flat]⟩
      rw [List.forall_mem_append, List.forall_mem_singleton]
      exact ⟨before.1, scan.pieces, rfl, before.2⟩

theorem lineText_flat (flat : Flat pieces) : lineText (pieces ++ [[10]]) = pieces.flatten ∧ lineText pieces = pieces.flatten :=
  ⟨lineText_closed fun c member => (flat c member).1, lineText_open (fun c member => (flat c member).1.1) fun newline =>
    (flat 10 (List.mem_of_getLast? newline)).2 rfl⟩

theorem last_flat {scan : Scan} {line : List Str} (flat : Flat scan.pieces) (member : line ∈ scan.last) : 10 ∉ lineText line := by
  unfold Scan.last at member
  split at member
  · rw [List.mem_singleton.mp member]
    have bytes : ∀ c ∈ (scan.pieces ++ [[255]]).flatten, c ≠ 0 ∧ c ≠ 10 := by
      rw [List.flatten_append, List.forall_mem_append]
      exact ⟨fun c member => ⟨(flat c member).1.1, (flat c member).2⟩, by simp⟩
    rw [lineText_open (fun c member => (bytes c member).1) fun newline => (bytes 10 (List.mem_of_getLast? newline)).2 rfl]
    exact fun inside => (bytes 10 inside).2 rfl
  split at member
  · cases member
  · rw [List.mem_singleton.mp member, (lineText_flat flat).2]
    exact fun inside => (flat 10 inside).2 rfl

theorem crlf_some (init : List Str) (last : Str) : logicalLines (crlfText (init ++ [last])) ≠ [] := by
  have split_ : crlfText (init ++ [last]) = crlfText init ++ last ++ [13, 10] := by
    unfold crlfText
    rw [List.flatMap_append, List.flatMap_singleton, List.append_assoc]
  unfold logicalLines
  rw [split_, run_append]
  generalize Scan.run {} (crlfText init ++ last) = scan
  obtain ⟨lines, pieces, mode⟩ := scan
  cases mode <;> simp [Scan.run, Scan.step, scanAct, Scan.last]

theorem crlf_texts {init : List Str} {last : Str} (plain : ∀ line ∈ init ++ [last], ∀ c ∈ line, c ≠ 10 ∧ c ≠ 13 ∧ c ≠ 0) :
    (logicalLines (crlfText (init ++ [last]))).map lineText = (logicalLines (physicalText (init ++ [last]))).map lineText ↔
      (∀ line ∈ init, escapes line = false) ∧ bare last = false := by
  have bytes : 0 ∉ physicalText (init ++ [last]) ∧ 13 ∉ physicalText (init ++ [last]) := by
    constructor <;>
    · intro member
      obtain ⟨line, inside, member⟩ := List.mem_flatMap.mp member
      rcases List.mem_append.mp member with member | member
      · have other := plain line inside _ member
        simp at other
      · simp at member
  obtain ⟨complete, open_⟩ := @run_flat _ {} bytes ⟨by simp, by simp [Flat]⟩
  by_cases escaped : ∃ line ∈ init, escapes line = true
  · refine iff_of_false (fun same => ?_) fun ⟨all, _⟩ => ?_
    · obtain ⟨text, stored, newline, whole⟩ := @run_breaks init [] last plain escaped
      have here : text.flatten ∈ (logicalLines (crlfText (init ++ [last]))).map lineText :=
        List.mem_map.mpr ⟨_, stored, lineText_closed whole⟩
      rw [same] at here
      obtain ⟨line, member, read⟩ := List.mem_map.mp here
      have flat : 10 ∉ lineText line := by
        rcases List.mem_append.mp member with member | member
        · obtain ⟨text, rfl, flat⟩ := complete line member
          rw [(lineText_flat flat).1]
          exact fun inside => (flat 10 inside).2 rfl
        · exact last_flat open_ member
      rw [read] at flat
      exact flat newline
    · obtain ⟨line, member, escape⟩ := escaped
      exact absurd ((all line member).symm.trans escape) Bool.false_ne_true
  · have unescaped : ∀ line ∈ init, escapes line = false := fun line member =>
      Bool.eq_false_iff.mpr fun escape => escaped ⟨line, member, escape⟩
    rw [and_iff_right unescaped]
    obtain ⟨front, behind⟩ := List.forall_mem_append.mp plain
    have behind := List.forall_mem_singleton.mp behind
    obtain ⟨finished, run, run'⟩ := @run_unescaped init [] (fun line member c inside => ⟨(front line member c inside).1,
      (front line member c inside).2.1⟩) unescaped
    obtain ⟨more, mode, ran, quoted, ends, empty⟩ := run_physical fun c member => ⟨(behind c member).1, (behind c member).2.1⟩
    have whole : Scan.run {} (physicalText (init ++ [last])) = Scan.run ⟨finished, more, mode⟩ [10] := by
      unfold physicalText at run ⊢
      rw [List.flatMap_append, List.flatMap_singleton, run_append, run_append]
      exact congrArg (fun scan : Scan => Scan.run scan [10]) ((congrArg (fun scan : Scan => Scan.run scan last) run).trans (ran _ _))
    have whole' : Scan.run {} (crlfText (init ++ [last])) = Scan.run ⟨finished, more, mode⟩ [13, 10] := by
      unfold crlfText at run' ⊢
      rw [List.flatMap_append, List.flatMap_singleton, run_append, run_append]
      exact congrArg (fun scan : Scan => Scan.run scan [13, 10]) ((congrArg (fun scan : Scan => Scan.run scan last) run').trans (ran _ _))
    rw [← Bool.not_eq_true, empty]
    unfold logicalLines
    rw [whole, whole']
    cases here : escapes last with
    | false =>
      obtain ⟨newline, cr⟩ := @run_newline_plain finished more mode (ends here)
      rw [newline, cr]
      simp
    | true =>
      obtain rfl := quoted here
      have joined : Scan.run ⟨finished, more, .quoted⟩ [10] = ⟨finished, more, .joined⟩ := rfl
      have stored : Scan.run ⟨finished, more, .quoted⟩ [13, 10] = ⟨finished, more ++ [[10]], .text⟩ := rfl
      rw [whole, joined] at open_
      rw [joined, stored]
      obtain ⟨closed, left⟩ := lineText_flat open_
      by_cases none : more = []
      · subst none
        simp [Scan.last]
      · simp [Scan.last, none, closed, left]

end

/-- A file reads the same with a carriage return in front of each newline just if no newline is escaped, but maybe the last one
behind something. -/
theorem crlf_lines (size : Nat) (buf buf' : Buffer) (text : Str) (plain : 0 ∉ text ∧ 13 ∉ text) (ends : text.getLast? = some 10)
    (short : ∀ line ∈ logicalLines text, line.flatten.length ≤ size - 2)
    (short' : ∀ line ∈ logicalLines (crlf text), line.flatten.length ≤ size - 2) :
    lifFgetlines size ((crlf text).length + 1) buf' (crlf text) = lifFgetlines size (text.length + 1) buf text ↔ Unjoined text := by
  obtain ⟨init, last, rfl, inside⟩ := physical_lines ends
  have bytes : ∀ line ∈ init ++ [last], ∀ c ∈ line, c ≠ 10 ∧ c ≠ 13 ∧ c ≠ 0 := by
    intro line member c stored
    have part : c ∈ physicalText (init ++ [last]) := List.mem_flatMap.mpr ⟨line, member, List.mem_append_left _ stored⟩
    refine ⟨fun newline => inside line member (newline ▸ stored), ?_, ?_⟩
    · rintro rfl
      exact plain.2 part
    · rintro rfl
      exact plain.1 part
  have fit : ∀ line ∈ logicalLines (physicalText (init ++ [last])), Fits (size - 2) line :=
    fun line member => fits_length (logicalLines_filled member) (short line member)
  have fit' : ∀ line ∈ logicalLines (crlf (physicalText (init ++ [last]))), Fits (size - 2) line :=
    fun line member => fits_length (logicalLines_filled member) (short' line member)
  have enough : 2 < size := by
    obtain ⟨line, member⟩ := List.exists_mem_of_ne_nil _ (crlf_some init last)
    have filled := crlf_physical inside ▸ short' line
    have solid := (logicalLines_filled member).2
    have some_ : line.flatten ≠ [] := fun none => (logicalLines_filled member).1 ((flatten_none solid).mp none)
    have long := List.length_pos_iff.mpr some_
    have bound := filled member
    omega
  obtain ⟨lines, calls, -, whole, -⟩ := lifFgetlines_calls enough buf (physicalText (init ++ [last])) (Nat.lt_succ_self _)
  obtain ⟨lines', calls', -, whole', -⟩ := lifFgetlines_calls enough buf' (crlf (physicalText (init ++ [last]))) (Nat.lt_succ_self _)
  rw [calls, calls', Option.some_inj, whole fit, whole' fit', crlf_physical inside, crlf_texts bytes, Unjoined,
    splitOn_physical inside, List.dropLast_concat, List.getLast?_concat]
  simp

theorem crlf_lines_comment :
    lifFgetlines 4096 ((crlf (str "auto lo # \\\nuse \\#dhcp\n")).length + 1) [] (crlf (str "auto lo # \\\nuse \\#dhcp\n")) =
      lifFgetlines 4096 ((str "auto lo # \\\nuse \\#dhcp\n").length + 1) [] (str "auto lo # \\\nuse \\#dhcp\n") :=
  (crlf_lines 4096 [] [] (str "auto lo # \\\nuse \\#dhcp\n") (by decide +kernel) (by decide +kernel) (by decide +kernel)
    (by decide +kernel)).mpr (by decide +kernel)

theorem crlf_lines_joined :
    ¬ ∀ (size : Nat) (buf buf' : Buffer) (text : Str), 0 ∉ text ∧ 13 ∉ text → text.getLast? = some 10 →
      (∀ line ∈ logicalLines text, line.flatten.length ≤ size - 2) →
      (∀ line ∈ logicalLines (crlf text), line.flatten.length ≤ size - 2) →
      lifFgetlines size ((crlf text).length + 1) buf' (crlf text) = lifFgetlines size (text.length + 1) buf text := by
  intro claim
  have same := claim 4096 [] [] (str "auto eth0 \\\n  eth1\n") (by decide +kernel) (by decide +kernel) (by decide +kernel)
    (by decide +kernel)
  have joined : lifFgetlines 4096 ((str "auto eth0 \\\n  eth1\n").length + 1) [] (str "auto eth0 \\\n  eth1\n") =
      some [str "auto eth0 eth1"] := by decide +kernel
  have kept : lifFgetlines 4096 ((crlf (str "auto eth0 \\\n  eth1\n")).length + 1) [] (crlf (str "auto eth0 \\\n  eth1\n")) =
      some [str "auto eth0 \n  eth1"] := by decide +kernel
  exact absurd (kept.symm.trans (same.trans joined)) (by decide +kernel)

end Ifupdown
