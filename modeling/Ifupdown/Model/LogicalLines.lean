import Ifupdown.Model.LineReader

/-! The logical lines of a stream, by a scanner that looks at one byte at a time and has no buffer to fill. -/
namespace Ifupdown

/-- Where the scanner stands. After a carriage return a newline is skipped. -/
inductive ScanMode where
  | text | quoted | joined | comment | cr
  deriving DecidableEq

/-- What becomes of a byte: nothing, bytes that are stored together, or the end of the line. -/
inductive ScanAct where
  | skip (mode : ScanMode)
  | store (piece : Str) (mode : ScanMode)
  | finish (mode : ScanMode)
  deriving DecidableEq

def scanAct : ScanMode → UInt8 → ScanAct
  | .comment, c => if c = 10 then .finish .text else .skip .comment
  | .quoted, c =>
    if c = 35 then .skip .text
    else if c = 10 then .skip .joined
    else if c = 13 then .store [10] .cr
    else .store [92, c] .text
  | mode, c =>
    if mode = .joined ∧ (c = 9 ∨ c = 32) then .skip .joined
    else if mode = .cr ∧ c = 10 then .skip .text
    else if c = 92 then .skip .quoted
    else if c = 35 then .skip .comment
    else if c = 10 then .finish .text
    else if c = 13 then .finish .cr
    else .store [c] .text

/-- The lines that are complete, with their newlines, and the pieces of the one that is not. -/
structure Scan where
  lines : List (List Str) := []
  pieces : List Str := []
  mode : ScanMode := .text

def Scan.step (scan : Scan) (c : UInt8) : Scan :=
  match scanAct scan.mode c with
  | .skip mode => { scan with mode := mode }
  | .store piece mode => { scan with pieces := scan.pieces ++ [piece], mode := mode }
  | .finish mode => { lines := scan.lines ++ [scan.pieces ++ [[10]]], pieces := [], mode := mode }

def Scan.run (scan : Scan) (stream : Str) : Scan := stream.foldl Scan.step scan

/-- The line that the stream ends in. In a comment the value of EOF is stored. -/
def Scan.last (scan : Scan) : List (List Str) :=
  if scan.mode = .comment then [scan.pieces ++ [[255]]] else if scan.pieces.isEmpty then [] else [scan.pieces]

/-- The logical lines of a stream, each as the pieces that are stored for it. -/
def logicalLines (stream : Str) : List (List Str) :=
  let scan := Scan.run {} stream
  scan.lines ++ scan.last

def lineText (line : List Str) : Str := strAt (terminate line.flatten) 0

/-- There is still room when the last piece of the line is stored. -/
def Fits (room : Nat) (line : List Str) : Prop := line.dropLast.flatten.length < room

instance (room : Nat) (line : List Str) : Decidable (Fits room line) :=
  inferInstanceAs (Decidable (line.dropLast.flatten.length < room))

section
variable {scan : Scan} {stream rest : Str} {mode mode' : ScanMode} {lines : List (List Str)} {pieces : List Str} {c : UInt8}

theorem run_append (first second : Str) : scan.run (first ++ second) = (scan.run first).run second := List.foldl_append

theorem run_cons : scan.run (c :: stream) = (scan.step c).run stream := rfl

theorem step_skip (act : scanAct mode c = .skip mode') : Scan.step ⟨lines, pieces, mode⟩ c = ⟨lines, pieces, mode'⟩ := by
  unfold Scan.step
  dsimp only
  rw [act]

theorem step_store {piece : Str} (act : scanAct mode c = .store piece mode') :
    Scan.step ⟨lines, pieces, mode⟩ c = ⟨lines, pieces ++ [piece], mode'⟩ := by
  unfold Scan.step
  dsimp only
  rw [act]

theorem step_finish (act : scanAct mode c = .finish mode') :
    Scan.step ⟨lines, pieces, mode⟩ c = ⟨lines ++ [pieces ++ [[10]]], [], mode'⟩ := by
  unfold Scan.step
  dsimp only
  rw [act]

theorem run_lines (before : List (List Str)) :
    Scan.run ⟨before ++ lines, pieces, mode⟩ stream =
      { Scan.run ⟨lines, pieces, mode⟩ stream with lines := before ++ (Scan.run ⟨lines, pieces, mode⟩ stream).lines } := by
  induction stream generalizing lines pieces mode with
  | nil => rfl
  | cons c stream ih =>
    rw [run_cons, run_cons]
    unfold Scan.step
    dsimp only
    split
    · exact ih
    · exact ih
    · rw [List.append_assoc]
      exact ih

theorem run_behind (lines : List (List Str)) : Scan.run ⟨lines, pieces, mode⟩ stream =
    { Scan.run ⟨[], pieces, mode⟩ stream with lines := lines ++ (Scan.run ⟨[], pieces, mode⟩ stream).lines } := by
  have whole := @run_lines stream mode [] pieces lines
  rwa [List.append_nil] at whole

/-- The mode is as good as `text` for what comes next. -/
def LikeText (mode : ScanMode) (rest : Str) : Prop :=
  mode = .text ∨ mode = .joined ∧ (∀ c ∈ rest.head?, c ≠ 9 ∧ c ≠ 32) ∨ mode = .cr ∧ ∀ c ∈ rest.head?, c ≠ 10

theorem likeText_act (like : LikeText mode (c :: rest)) : scanAct mode c = scanAct .text c := by
  rcases like with rfl | ⟨rfl, other⟩ | ⟨rfl, other⟩
  · rfl
  · obtain ⟨tab, space⟩ := other c rfl
    simp [scanAct, tab, space]
  · have other := other c rfl
    simp [scanAct, other]

theorem likeText_lines (like : LikeText mode rest) :
    (Scan.run ⟨lines, pieces, mode⟩ rest).lines ++ (Scan.run ⟨lines, pieces, mode⟩ rest).last =
      (Scan.run ⟨lines, pieces, .text⟩ rest).lines ++ (Scan.run ⟨lines, pieces, .text⟩ rest).last := by
  cases rest with
  | nil =>
    have other : mode ≠ .comment := by
      rintro rfl
      rcases like with same | ⟨same, -⟩ | ⟨same, -⟩ <;> cases same
    have plain : ScanMode.text ≠ .comment := by decide
    unfold Scan.run Scan.last
    rw [List.foldl_nil, List.foldl_nil]
    dsimp only
    rw [if_neg other, if_neg plain]
  | cons c rest =>
    have same : Scan.step ⟨lines, pieces, mode⟩ c = Scan.step ⟨lines, pieces, .text⟩ c := by
      unfold Scan.step
      dsimp only
      rw [likeText_act like]
    rw [run_cons, run_cons, same]

/-- The loop of `lif_fgetline`, entered where the scanner stands in this mode. -/
def loopFrom (room : Nat) : ScanMode → Str → Str → Str × Bool × Str
  | .text, line, stream => fgetlineLoop room false false line stream
  | .quoted, line, stream => fgetlineLoop room true false line stream
  | .joined, line, stream => fgetlineLoop room false true line stream
  | .comment, line, stream =>
    match stream.dropWhile (fun c => c != 10) with
    | [] => (line ++ [255], true, [])
    | newline :: rest => (line ++ [newline], false, rest)
  | .cr, line, stream =>
    match stream with
    | 10 :: rest => fgetlineLoop room false false line rest
    | rest => fgetlineLoop room false false line rest

variable {room : Nat} {line : Str}

theorem loopFrom_text (like : LikeText mode (c :: stream)) :
    loopFrom room mode line (c :: stream) = loopFrom room .text line (c :: stream) := by
  rcases like with rfl | ⟨rfl, other⟩ | ⟨rfl, other⟩
  · rfl
  · obtain ⟨tab, space⟩ := other c rfl
    unfold loopFrom fgetlineLoop
    simp [tab, space]
  · have other : c ≠ 10 := other c rfl
    dsimp only [loopFrom]
    split
    · rename_i same
      exact absurd (List.cons.inj same).1 other
    · rfl

theorem likeText_nil (plain : mode ≠ .quoted ∧ mode ≠ .comment) : LikeText mode [] := by
  cases mode with
  | text => exact Or.inl rfl
  | joined | cr => simp [LikeText]
  | quoted => exact absurd rfl plain.1
  | comment => exact absurd rfl plain.2

theorem loopFrom_skips (unlike : ¬ LikeText mode (c :: stream)) (plain : mode ≠ .quoted ∧ mode ≠ .comment) :
    ∃ mode', scanAct mode c = .skip mode' ∧ (mode' ≠ .quoted ∧ mode' ≠ .comment) ∧
      ∀ rest, loopFrom room mode line (c :: rest) = loopFrom room mode' line rest := by
  cases mode with
  | text => exact absurd (Or.inl rfl) unlike
  | joined =>
    have blank : c = 9 ∨ c = 32 := Decidable.byContradiction fun other =>
      unlike (Or.inr (Or.inl ⟨rfl, fun d first => by cases first; exact not_or.mp other⟩))
    refine ⟨.joined, by simp [scanAct, blank], by decide, fun rest => ?_⟩
    conv => lhs; unfold loopFrom fgetlineLoop
    simp [blank, loopFrom]
  | cr =>
    have newline : c = 10 := Decidable.byContradiction fun other =>
      unlike (Or.inr (Or.inr ⟨rfl, fun d first => by cases first; exact other⟩))
    subst newline
    exact ⟨.text, rfl, by decide, fun rest => rfl⟩
  | quoted => exact absurd rfl plain.1
  | comment => exact absurd rfl plain.2

/-- What the loop does with a byte, where there is room for it, is what the scanner does. -/
theorem loopFrom_step (short : line.length < room) : loopFrom room mode line (c :: stream) =
    match scanAct mode c with
    | .skip mode => loopFrom room mode line stream
    | .store piece mode => loopFrom room mode (line ++ piece) stream
    | .finish mode => (line ++ [10], false, if mode = .cr ∧ stream.head? = some 10 then stream.tail else stream) := by
  have text : loopFrom room .text line (c :: stream) =
      match scanAct .text c with
      | .skip mode => loopFrom room mode line stream
      | .store piece mode => loopFrom room mode (line ++ piece) stream
      | .finish mode => (line ++ [10], false, if mode = .cr ∧ stream.head? = some 10 then stream.tail else stream) := by
    conv => lhs; unfold loopFrom fgetlineLoop
    simp only [Bool.false_and, Bool.false_eq_true, if_false, not_true_eq_false, short, Bool.not_false, Bool.and_true, beq_iff_eq,
      scanAct, reduceCtorEq, false_and]
    split
    · rfl
    split
    · rfl
    split
    · rfl
    split
    · cases stream with
      | nil => rfl
      | cons d stream =>
        by_cases newline : d = 10
        · subst newline
          rfl
        · simp [newline]
    · rfl
  by_cases like : LikeText mode (c :: stream)
  · rw [loopFrom_text like, likeText_act like]
    exact text
  by_cases plain : mode ≠ .quoted ∧ mode ≠ .comment
  · obtain ⟨mode', act, -, moves⟩ := loopFrom_skips like plain
    rw [moves, act]
  cases mode with
  | text | joined | cr => exact absurd (by decide) plain
  | comment =>
    by_cases newline : c = 10
    · subst newline
      rfl
    · dsimp only [loopFrom]
      rw [List.dropWhile_cons_of_pos (by simpa using newline)]
      simp [scanAct, newline]
  | quoted =>
    conv => lhs; unfold loopFrom fgetlineLoop
    simp only [Bool.false_and, Bool.false_eq_true, if_false, not_true_eq_false, short, Bool.not_true, Bool.and_false, beq_iff_eq,
      if_true, scanAct]
    split
    · rfl
    split
    · rfl
    split
    · rcases stream with _ | ⟨d, stream⟩
      · rfl
      by_cases newline : d = 10
      · subst newline
        rfl
      · have later : loopFrom room .cr (line ++ [10]) (d :: stream) = loopFrom room .text (line ++ [10]) (d :: stream) :=
          loopFrom_text (Or.inr (Or.inr ⟨rfl, fun e first => by cases first; exact newline⟩))
        refine Eq.trans ?_ later.symm
        split
        · rename_i same
          exact absurd (List.cons.inj same).1 newline
        · rfl
    · rfl

theorem loopFrom_full (full : ¬ line.length < room) (like : LikeText mode stream) :
    loopFrom room mode line stream = (line, false, stream) := by
  cases stream with
  | nil => rcases like with rfl | ⟨rfl, -⟩ | ⟨rfl, -⟩ <;> simp [loopFrom, fgetlineLoop, full]
  | cons c stream =>
    rw [loopFrom_text like]
    unfold loopFrom fgetlineLoop
    simp [full]

theorem loopFrom_eof (short : line.length < room) :
    loopFrom room mode line [] = (line ++ (if mode = .comment then [255] else []), true, []) := by
  cases mode <;> simp [loopFrom, fgetlineLoop, short]

/-- What the loop of `lif_fgetline` leaves: the end of a line, the end of the stream, or a full buffer. -/
inductive Outcome (room : Nat) (scan : Scan) : Str → Str × Bool × Str → Prop
  | finished {used rest : Str} {pieces : List Str} {mode : ScanMode} :
    scan.run used = ⟨scan.lines ++ [pieces ++ [[10]]], [], mode⟩ → pieces.flatten.length < room → LikeText mode rest →
      Outcome room scan (used ++ rest) (pieces.flatten ++ [10], false, rest)
  | ended {used : Str} {pieces : List Str} {mode : ScanMode} :
    scan.run used = ⟨scan.lines, pieces, mode⟩ → pieces.flatten.length < room →
      Outcome room scan used (pieces.flatten ++ (if mode = .comment then [255] else []), true, [])
  | full {used rest : Str} {pieces : List Str} {mode : ScanMode} :
    scan.run used = ⟨scan.lines, pieces, mode⟩ → room ≤ pieces.flatten.length → Fits room pieces → LikeText mode rest →
      Outcome room scan (used ++ rest) (pieces.flatten, false, rest)

variable {result : Str × Bool × Str}

theorem Outcome.step (same : (scan.step c).lines = scan.lines) (outcome : Outcome room (scan.step c) stream result) :
    Outcome room scan (c :: stream) result := by
  cases outcome with
  | @finished used rest pieces mode ran short like =>
    rw [← List.cons_append]
    exact .finished (by rw [run_cons, ran, same]) short like
  | ended ran short => exact .ended (by rw [run_cons, ran, same]) short
  | @full used rest pieces mode ran filled fits like =>
    rw [← List.cons_append]
    exact .full (by rw [run_cons, ran, same]) filled fits like

theorem Outcome.skip (act : scanAct mode c = .skip mode') (outcome : Outcome room ⟨lines, pieces, mode'⟩ stream result) :
    Outcome room ⟨lines, pieces, mode⟩ (c :: stream) result := by
  refine .step ?_ ?_ <;> rw [step_skip act]
  exact outcome

theorem Outcome.store {piece : Str} (act : scanAct mode c = .store piece mode')
    (outcome : Outcome room ⟨lines, pieces ++ [piece], mode'⟩ stream result) :
    Outcome room ⟨lines, pieces, mode⟩ (c :: stream) result := by
  refine .step ?_ ?_ <;> rw [step_store act]
  exact outcome

theorem Outcome.stop (filled : room ≤ pieces.flatten.length) (fits : Fits room pieces) (like : LikeText mode rest) :
    Outcome room ⟨lines, pieces, mode⟩ rest (pieces.flatten, false, rest) := by
  have none : Scan.run ⟨lines, pieces, mode⟩ [] = ⟨lines, pieces, mode⟩ := rfl
  exact .full none filled fits like

theorem Outcome.newline (act : scanAct mode c = .finish mode') (short : pieces.flatten.length < room) (like : LikeText mode' rest) :
    Outcome room ⟨lines, pieces, mode⟩ (c :: rest) (pieces.flatten ++ [10], false, rest) := by
  have ran : Scan.run ⟨lines, pieces, mode⟩ [c] = ⟨lines ++ [pieces ++ [[10]]], [], mode'⟩ := step_finish act
  exact .finished ran short like

theorem fits_store (piece : Str) (short : pieces.flatten.length < room) : Fits room (pieces ++ [piece]) := by
  unfold Fits
  rwa [List.dropLast_concat]

theorem scanAct_stored {piece : Str} (act : scanAct mode c = .store piece mode') : mode' ≠ .quoted ∧ mode' ≠ .comment := by
  unfold scanAct at act
  repeat' split at act
  all_goals cases act
  all_goals decide

theorem scanAct_finish (act : scanAct mode c = .finish mode') : mode' = .text ∨ mode' = .cr := by
  unfold scanAct at act
  repeat' split at act
  all_goals cases act
  all_goals decide

/-- The loop does what the scanner does until its buffer is full. -/
theorem loopFrom_outcome (open_ : mode = .quoted ∨ mode = .comment → pieces.flatten.length < room) (fits : Fits room pieces) :
    Outcome room ⟨lines, pieces, mode⟩ stream (loopFrom room mode pieces.flatten stream) := by
  induction stream generalizing pieces mode with
  | nil =>
    by_cases short : pieces.flatten.length < room
    · have none : Scan.run ⟨lines, pieces, mode⟩ [] = ⟨lines, pieces, mode⟩ := rfl
      rw [loopFrom_eof short]
      exact .ended none short
    · have like : LikeText mode [] := likeText_nil (not_or.mp (mt open_ short))
      rw [loopFrom_full short like]
      exact .stop (Nat.not_lt.mp short) fits like
  | cons c stream ih =>
    by_cases short : pieces.flatten.length < room
    · rw [loopFrom_step short]
      cases act : scanAct mode c with
      | skip mode' => exact .skip act (ih (fun _ => short) fits)
      | store piece mode' =>
        obtain ⟨unquoted, text⟩ := scanAct_stored act
        have later := @ih mode' (pieces ++ [piece]) (fun open_ => (open_.elim unquoted text).elim) (fits_store piece short)
        rw [List.flatten_append, List.flatten_singleton] at later
        exact .store act later
      | finish mode' =>
        dsimp only
        split
        · rename_i skipped
          obtain ⟨rfl, newline⟩ := skipped
          obtain ⟨stream, rfl⟩ := List.head?_eq_some_iff.mp newline
          have ran : Scan.run ⟨lines, pieces, mode⟩ [c, 10] = ⟨lines ++ [pieces ++ [[10]]], [], .text⟩ := by
            rw [run_cons, step_finish act]
            rfl
          exact .finished ran short (Or.inl rfl)
        · rename_i single
          refine .newline act short ?_
          rcases scanAct_finish act with rfl | rfl
          · exact Or.inl rfl
          · exact Or.inr (Or.inr ⟨rfl, fun d first newline => single ⟨rfl, newline ▸ first⟩⟩)
    · have plain := not_or.mp (mt open_ short)
      by_cases like : LikeText mode (c :: stream)
      · rw [loopFrom_full short like]
        exact .stop (Nat.not_lt.mp short) fits like
      · obtain ⟨mode', act, later, moves⟩ := @loopFrom_skips _ _ _ room pieces.flatten like plain
        rw [moves]
        exact .skip act (ih (fun open_ => (open_.elim later.1 later.2).elim) fits)

def Scan.Filled (scan : Scan) : Prop := (∀ line ∈ scan.lines, line ≠ [] ∧ [] ∉ line) ∧ [] ∉ scan.pieces

theorem scanAct_store {piece : Str} (act : scanAct mode c = .store piece mode') : piece ≠ [] := by
  rintro rfl
  unfold scanAct at act
  repeat' split at act
  all_goals cases act

theorem run_filled (filled : scan.Filled) : (scan.run stream).Filled := by
  induction stream generalizing scan with
  | nil => exact filled
  | cons c stream ih =>
    refine ih ?_
    unfold Scan.step
    split
    · exact filled
    · rename_i act
      refine ⟨filled.1, ?_⟩
      rw [List.mem_append, List.mem_singleton]
      exact not_or.mpr ⟨filled.2, (scanAct_store act).symm⟩
    · refine ⟨?_, List.not_mem_nil⟩
      rw [List.forall_mem_append, List.forall_mem_singleton]
      exact ⟨filled.1, by simp, by simp [filled.2]⟩

theorem init_filled : Scan.Filled {} := ⟨by simp, by simp⟩

theorem logicalLines_filled {line : List Str} (member : line ∈ logicalLines stream) : line ≠ [] ∧ [] ∉ line := by
  obtain ⟨lines, pieces⟩ := @run_filled _ stream init_filled
  rcases List.mem_append.mp member with complete | last
  · exact lines line complete
  · unfold Scan.last at last
    split at last
    · rw [List.mem_singleton.mp last]
      exact ⟨by simp, by simp [pieces]⟩
    split at last
    · cases last
    · rename_i some_
      rw [List.mem_singleton.mp last]
      exact ⟨fun none => some_ (List.isEmpty_iff.mpr none), pieces⟩

theorem run_pieces (before : List Str) :
    Scan.run ⟨[], before ++ pieces, mode⟩ stream =
      match Scan.run ⟨[], pieces, mode⟩ stream with
      | ⟨[], pieces, mode⟩ => ⟨[], before ++ pieces, mode⟩
      | ⟨first :: later, pieces, mode⟩ => ⟨(before ++ first) :: later, pieces, mode⟩ := by
  induction stream generalizing pieces mode with
  | nil => rfl
  | cons c stream ih =>
    rw [run_cons, run_cons]
    unfold Scan.step
    dsimp only
    split
    · exact ih
    · rw [List.append_assoc]
      exact ih
    · rw [List.nil_append, List.nil_append, List.append_assoc, run_behind [pieces ++ [[10]]],
        run_behind [before ++ (pieces ++ [[10]])]]
      rfl

end

end Ifupdown
