import Ifupdown.Model.LogicalLines

/-! Calls of `lif_fgetline` until it returns NULL, and the logical lines that they come by. -/
namespace Ifupdown

/-- The strings that calls of `lif_fgetline` return up to the one that returns NULL. -/
def lifFgetlines (size : Nat) : Nat → Buffer → Str → Option (List Str)
  | 0, _, _ => none
  | fuel + 1, buf, stream =>
    match lifFgetline buf size stream with
    | (none, _) => some []
    | (some line, rest) => (lifFgetlines size fuel line rest).map fun lines => strAt line 0 :: lines

section
variable {scan : Scan} {stream rest : Str} {size room : Nat} {pieces : List Str} {mode : ScanMode}

theorem strAt_stored (line : Str) (behind : Buffer) : strAt (terminate line ++ behind) 0 = strAt (terminate line) 0 := by
  unfold strAt
  rw [List.drop_zero, List.drop_zero, ← terminate_zero, List.append_assoc]
  generalize (terminate line).dropLast = text
  induction text with
  | nil => rfl
  | cons c text ih =>
    simp only [List.cons_append, List.takeWhile_cons] at ih ⊢
    rw [ih]

theorem flatten_none (solid : [] ∉ pieces) : pieces.flatten = [] ↔ pieces = [] := by
  cases pieces with
  | nil => simp
  | cons piece rest =>
    have some_ : piece ≠ [] := fun none => solid (none ▸ List.mem_cons_self)
    simp [some_]

theorem run_bytes (zeros : 0 ∉ stream) (before : ∀ c ∈ scan.pieces.flatten, c ≠ 0 ∧ c ≠ 13) :
    ∀ c ∈ (scan.run stream).pieces.flatten, c ≠ 0 ∧ c ≠ 13 := by
  induction stream generalizing scan with
  | nil => exact before
  | cons c stream ih =>
    obtain ⟨zero, zeros⟩ := not_or.mp (fun h => zeros (List.mem_cons.mpr h))
    refine ih zeros ?_
    unfold Scan.step
    split
    · exact before
    · rename_i piece mode act
      have stored : ∀ d ∈ piece, d ≠ 0 ∧ d ≠ 13 := by
        unfold scanAct at act
        repeat' split at act
        all_goals cases act
        all_goals simp_all [Ne.symm zero]
      rw [List.flatten_append, List.flatten_singleton, List.forall_mem_append]
      exact ⟨before, stored⟩
    · simp

theorem lineText_closed (bytes : ∀ c ∈ pieces.flatten, c ≠ 0 ∧ c ≠ 13) : lineText (pieces ++ [[10]]) = pieces.flatten := by
  unfold lineText
  rw [List.flatten_append, List.flatten_singleton,
    terminate_newline fun cr => (bytes 13 (List.mem_of_getLast? cr)).2 rfl]
  exact strAt_append [] pieces.flatten [0] rfl fun c member => (bytes c member).1

theorem lineText_open (bytes : ∀ c ∈ pieces.flatten, c ≠ 0) (last : pieces.flatten.getLast? ≠ some 10) :
    lineText pieces = pieces.flatten := by
  unfold lineText
  rw [terminate_open last]
  exact strAt_append [] pieces.flatten [] rfl bytes

theorem last_text (stored : ∀ c ∈ scan.pieces.flatten, c ≠ 0 ∧ c ≠ 13) (solid : [] ∉ scan.pieces) :
    scan.last.map lineText = [lineText (scan.pieces ++ [[10]])] ↔
      scan.mode ≠ .comment ∧ ∃ c ∈ scan.pieces.flatten.getLast?, c ≠ 10 := by
  obtain ⟨lines, pieces, mode⟩ := scan
  dsimp only at stored solid
  have empty_iff := flatten_none solid
  unfold Scan.last
  dsimp only
  rw [lineText_closed stored]
  by_cases comment : mode = .comment
  · rw [if_pos comment, List.map_singleton, lineText_open]
    · simp [comment]
    · rw [List.flatten_append, List.forall_mem_append]
      exact ⟨fun c member => (stored c member).1, by simp⟩
    · simp
  rw [if_neg comment]
  by_cases empty : pieces = []
  · simp [empty]
  have kept : pieces.isEmpty = false := by rwa [← Bool.not_eq_true, List.isEmpty_iff]
  rw [kept, if_neg Bool.false_ne_true, List.map_singleton, List.singleton_inj]
  have filled : pieces.flatten ≠ [] := fun none => empty (empty_iff.mp none)
  by_cases newline : pieces.flatten.getLast? = some 10
  · obtain ⟨front, whole⟩ := List.getLast?_eq_some_iff.mp newline
    unfold lineText
    rw [whole] at stored ⊢
    rw [terminate_newline fun cr => (stored 13 (List.mem_append_left _ (List.mem_of_getLast? cr))).2 rfl,
      show strAt (front ++ [0, 0]) 0 = front from
        strAt_append [] front [0] rfl fun c member => (stored c (List.mem_append_left _ member)).1]
    simp
  · rw [lineText_open (fun c member => (stored c member).1) newline]
    rw [List.getLast?_eq_some_getLast filled] at newline ⊢
    simpa [comment] using newline

theorem fits_short (short : pieces.flatten.length < room) : Fits room pieces := by
  rcases List.eq_nil_or_concat pieces with rfl | ⟨init, last, rfl⟩
  · exact short
  · rw [List.concat_eq_append, List.flatten_append, List.length_append] at short
    rw [List.concat_eq_append]
    exact fits_store last (by omega)

theorem fits_length (solid : pieces ≠ [] ∧ [] ∉ pieces) (short : pieces.flatten.length ≤ room) : Fits room pieces := by
  obtain ⟨some_, solid⟩ := solid
  obtain ⟨init, last, rfl⟩ := (List.eq_nil_or_concat pieces).resolve_left some_
  rw [List.concat_eq_append] at solid short ⊢
  refine fits_store last ?_
  have positive : 0 < last.length := List.length_pos_iff.mpr fun none => solid (by simp [none])
  rw [List.flatten_append, List.length_append, List.flatten_singleton] at short
  omega

/-- A call returns a logical line, or the front of one when the buffer is full. -/
inductive Returns (room : Nat) (stream rest : Str) (line : Str) : Prop
  | whole {pieces : List Str} : logicalLines stream = pieces :: logicalLines rest → Fits room pieces → line = lineText pieces →
    Returns room stream rest line
  | front {pieces more : List Str} {later : List (List Str)} : logicalLines stream = (pieces ++ more) :: later →
    logicalLines rest = more :: later → more ≠ [] → room ≤ pieces.flatten.length → line = lineText pieces →
      Returns room stream rest line

/-- A scan that has stored pieces and goes on from the text. -/
theorem front_lines (first : pieces ≠ []) (lines : (Scan.run ⟨[], pieces, .text⟩ rest).lines ++
    (Scan.run ⟨[], pieces, .text⟩ rest).last = logicalLines stream) :
    logicalLines stream = pieces :: logicalLines rest ∧ logicalLines rest = [] ∨
      ∃ more later, logicalLines stream = (pieces ++ more) :: later ∧ logicalLines rest = more :: later ∧ more ≠ [] := by
  have whole := @run_pieces rest .text [] pieces
  rw [List.append_nil] at whole
  rw [whole] at lines
  have filled (line : List Str) (member : line ∈ logicalLines rest) := (logicalLines_filled member).1
  have rest_ : logicalLines rest = (Scan.run {} rest).lines ++ (Scan.run {} rest).last := rfl
  have run : Scan.run ⟨[], [], .text⟩ rest = Scan.run {} rest := rfl
  rw [run] at lines
  rw [rest_] at filled ⊢
  rw [← lines]
  generalize Scan.run {} rest = scan at filled ⊢
  obtain ⟨_ | ⟨line, later⟩, open_, mode⟩ := scan
  · unfold Scan.last at filled ⊢
    dsimp only
    by_cases comment : mode = .comment
    · rw [if_pos comment, if_pos comment, List.append_assoc]
      exact Or.inr ⟨_, [], rfl, rfl, by simp⟩
    · rw [if_neg comment, if_neg comment]
      have kept : (pieces ++ open_).isEmpty = false := by simp [first]
      rw [kept]
      cases open_ with
      | nil =>
        rw [List.append_nil]
        exact Or.inl ⟨rfl, rfl⟩
      | cons piece open_ => exact Or.inr ⟨piece :: open_, [], rfl, rfl, List.cons_ne_nil _ _⟩
  · exact Or.inr ⟨line, _, rfl, rfl, filled line List.mem_cons_self⟩

theorem logicalLines_finished {used : Str} (ran : Scan.run {} used = ⟨[pieces], [], mode⟩) (like : LikeText mode rest) :
    logicalLines (used ++ rest) = pieces :: logicalLines rest := by
  have same := @likeText_lines rest mode [] [] like
  unfold logicalLines
  rw [run_append, ran, run_behind]
  exact congrArg (pieces :: ·) same

theorem logicalLines_open {used : Str} (ran : Scan.run {} used = ⟨[], pieces, mode⟩) (like : LikeText mode rest) :
    (Scan.run ⟨[], pieces, .text⟩ rest).lines ++ (Scan.run ⟨[], pieces, .text⟩ rest).last = logicalLines (used ++ rest) := by
  unfold logicalLines
  rw [run_append, ran]
  exact (likeText_lines like).symm

/-- Each call comes by one logical line, or by the front of one. -/
theorem lifFgetline_returns (enough : 2 < size) (buf : Buffer) (stream : Str) :
    (lifFgetline buf size stream).1 = none ∧ logicalLines stream = [] ∨
      ∃ line rest, lifFgetline buf size stream = (some line, rest) ∧ Returns (size - 2) stream rest (strAt line 0) := by
  have fresh : Fits (size - 2) [] := by
    unfold Fits
    simp only [List.dropLast_nil, List.flatten_nil, List.length_nil]
    omega
  have outcome : Outcome (size - 2) {} stream (fgetlineLoop (size - 2) false false [] stream) :=
    @loopFrom_outcome stream .text [] [] (size - 2) (by simp) fresh
  unfold lifFgetline
  generalize fgetlineLoop (size - 2) false false [] stream = result at outcome
  cases outcome with
  | finished ran short like =>
    refine Or.inr ⟨_, _, rfl, .whole (logicalLines_finished ran like) (fits_store _ short) ?_⟩
    rw [strAt_stored]
    simp [lineText]
  | @ended _ pieces mode ran short =>
    have solid : [] ∉ pieces := by
      have filled := (@run_filled _ stream init_filled).2
      have same : (Scan.run {} stream).pieces = pieces := congrArg Scan.pieces ran
      rwa [same] at filled
    have lines : logicalLines stream = Scan.last ⟨[], pieces, mode⟩ := by
      unfold logicalLines
      have same : Scan.run {} stream = ⟨[], pieces, mode⟩ := ran
      rw [same]
      rfl
    unfold Scan.last at lines
    dsimp only at lines ⊢
    by_cases comment : mode = .comment
    · rw [if_pos comment] at lines ⊢
      rw [if_neg (by simp)]
      refine Or.inr ⟨_, _, rfl, .whole lines (fits_store _ short) ?_⟩
      rw [strAt_stored]
      simp [lineText]
    · rw [if_neg comment] at lines ⊢
      rw [List.append_nil]
      by_cases none : pieces = []
      · subst none
        exact Or.inl ⟨rfl, lines⟩
      · have some_ : (true && pieces.flatten.isEmpty) = false := by
          rw [Bool.true_and, ← Bool.not_eq_true, List.isEmpty_iff, flatten_none solid]
          exact none
        have kept : pieces.isEmpty = false := by rwa [← Bool.not_eq_true, List.isEmpty_iff]
        rw [kept] at lines
        rw [some_]
        refine Or.inr ⟨_, _, rfl, .whole lines ?_ ?_⟩
        · exact fits_short short
        · rw [strAt_stored]
          rfl
  | @full used rest pieces mode ran filled fits like =>
    have first : pieces ≠ [] := by
      rintro rfl
      simp only [List.flatten_nil, List.length_nil] at filled
      omega
    refine Or.inr ⟨_, _, rfl, ?_⟩
    rw [strAt_stored]
    rcases front_lines first (logicalLines_open ran like) with ⟨lines, none⟩ | ⟨more, later, lines, others, some_⟩
    · exact .whole lines fits rfl
    · exact .front lines others some_ filled rfl

theorem lifFgetlines_more {fuel more : Nat} {buf : Buffer} {lines : List Str} (calls : lifFgetlines size fuel buf stream = some lines)
    (enough : fuel ≤ more) : lifFgetlines size more buf stream = some lines := by
  induction fuel generalizing more buf stream lines with
  | zero => cases calls
  | succ fuel ih =>
    obtain ⟨more, rfl⟩ := Nat.exists_eq_add_of_lt (Nat.lt_of_succ_le enough)
    unfold lifFgetlines at calls ⊢
    split at calls
    · exact calls
    · obtain ⟨later, rest, rfl⟩ := Option.map_eq_some_iff.mp calls
      exact congrArg _ (ih rest (Nat.le_add_right fuel more))

theorem Returns.counts {line : Str} (returns : Returns room stream rest line) :
    (logicalLines stream).length ≤ (logicalLines rest).length + 1 := by
  cases returns with
  | whole lines _ _ =>
    exact Nat.le_of_eq (by rw [lines, List.length_cons])
  | front lines others _ _ _ =>
    rw [lines, others, List.length_cons, List.length_cons]
    omega

/-- The calls come to an end. They return the logical lines if all of them fit, and more strings if not. -/
theorem lifFgetlines_calls (enough : 2 < size) {fuel : Nat} (buf : Buffer) (stream : Str) (fuel_ : stream.length < fuel) :
    ∃ lines, lifFgetlines size fuel buf stream = some lines ∧ (logicalLines stream).length ≤ lines.length ∧
      ((∀ line ∈ logicalLines stream, Fits (size - 2) line) → lines = (logicalLines stream).map lineText) ∧
      (lines.length = (logicalLines stream).length → ∀ line ∈ logicalLines stream, Fits (size - 2) line) := by
  induction fuel generalizing buf stream with
  | zero => cases fuel_
  | succ fuel ih =>
    unfold lifFgetlines
    rcases lifFgetline_returns enough buf stream with ⟨ended, none⟩ | ⟨line, rest, read, returns⟩
    · generalize lifFgetline buf size stream = read at ended ⊢
      obtain ⟨line, rest⟩ := read
      subst ended
      rw [none]
      exact ⟨[], rfl, by simp⟩
    · rw [read]
      have shorter := lifFgetline_shorter enough read
      obtain ⟨lines, calls, counts, fit, equal⟩ := ih line rest (by omega)
      refine ⟨strAt line 0 :: lines, by simp [calls], ?_⟩
      have more := returns.counts
      refine ⟨by rw [List.length_cons]; omega, ?_⟩
      cases returns with
      | whole lines_ fits text =>
        rw [lines_, List.forall_mem_cons, List.map_cons, List.length_cons, List.length_cons, text]
        constructor
        · rintro ⟨-, others⟩
          rw [fit others]
        · intro same
          exact ⟨fits, equal (by omega)⟩
      | @front pieces more later lines_ others some_ filled text =>
        have long : ¬ Fits (size - 2) (pieces ++ more) := by
          unfold Fits
          rw [List.dropLast_append_of_ne_nil some_, List.flatten_append, List.length_append]
          omega
        rw [others, List.length_cons] at counts
        rw [lines_, List.forall_mem_cons, List.length_cons, List.length_cons]
        constructor
        · rintro ⟨fits, -⟩
          exact absurd fits long
        · intro same
          omega

end

end Ifupdown
