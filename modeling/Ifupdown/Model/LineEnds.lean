import Ifupdown.Model.LogicalLines

/-! What the loop of `lif_fgetline` makes of blanks and a comment in front of the end of a line. -/
namespace Ifupdown

def isBlank (c : UInt8) : Bool := c == 9 || c == 32

def physicalText (physical : List Str) : Str := physical.flatMap fun line => line ++ [10]

theorem physicalText_cons (line : Str) (physical : List Str) :
    physicalText (line :: physical) = line ++ [10] ++ physicalText physical := List.flatMap_cons

def Trailing (extra : Str) : Prop := (∀ c ∈ (extra.dropWhile isBlank).head?, c = 35) ∧ 10 ∉ extra

instance (extra : Str) : Decidable (Trailing extra) := inferInstanceAs (Decidable ((∀ c ∈ _, _) ∧ _))

/-- The line that is scanned in this mode ends with these bytes, in front of the rest of the stream. -/
inductive LineEnd (mode : ScanMode) : Str → Str → Prop
  | newline (rest : Str) : LineEnd mode [10] rest
  | crlf (rest : Str) : LineEnd mode [13, 10] rest
  | cr {rest : Str} : mode ≠ .comment → rest.head? ≠ some 10 → LineEnd mode [13] rest
  | eof : LineEnd mode [] []

section
variable {room : Nat} {mode mode' : ScanMode} {line stream rest front : Str} {lines : List (List Str)} {pieces pieces' : List Str}
  {c : UInt8}

theorem run_single (ran : (Scan.run ⟨lines, pieces, mode⟩ stream).lines = []) : lines = [] := by
  rw [run_behind] at ran
  exact (List.append_eq_nil_iff.mp ran).1

theorem run_stored (kept : (Scan.run ⟨[], pieces, mode⟩ stream).lines = []) :
    ∃ more, (Scan.run ⟨[], pieces, mode⟩ stream).pieces = pieces ++ more := by
  have whole := @run_pieces stream mode [] pieces
  rw [List.append_nil] at whole
  rw [whole] at kept ⊢
  revert kept
  rcases Scan.run ⟨[], [], mode⟩ stream with ⟨_ | ⟨first, later⟩, more, last⟩
  · exact fun _ => ⟨more, rfl⟩
  · exact fun kept => absurd kept (List.cons_ne_nil _ _)

/-- The loop goes with the scanner as long as no line ends and the line is short enough. -/
theorem loopFrom_run (ran : Scan.run ⟨[], pieces, mode⟩ front = ⟨[], pieces', mode'⟩) (short : pieces'.flatten.length < room) :
    loopFrom room mode pieces.flatten (front ++ rest) = loopFrom room mode' pieces'.flatten rest := by
  induction front generalizing pieces mode with
  | nil =>
    cases ran
    rfl
  | cons c front ih =>
    have grows : pieces.flatten.length ≤ pieces'.flatten.length := by
      obtain ⟨more, same⟩ := @run_stored mode (c :: front) pieces (by rw [ran])
      rw [ran] at same
      rw [show pieces' = pieces ++ more from same, List.flatten_append, List.length_append]
      exact Nat.le_add_right _ _
    rw [run_cons] at ran
    have kept : (Scan.step ⟨[], pieces, mode⟩ c).lines = [] := run_single (by rw [ran])
    rw [List.cons_append, loopFrom_step (Nat.lt_of_le_of_lt grows short)]
    unfold Scan.step at ran kept
    dsimp only at ran kept ⊢
    revert ran kept
    cases scanAct mode c with
    | skip next => exact fun ran _ => ih ran
    | store piece next =>
      intro ran _
      have later := ih ran
      rw [List.flatten_append, List.flatten_singleton] at later
      exact later
    | finish next =>
      intro _ none
      exact absurd none (by simp)

theorem run_skipped {text : Str} (plain : 10 ∉ text) :
    Scan.run ⟨lines, pieces, .comment⟩ text = ⟨lines, pieces, .comment⟩ := by
  induction text with
  | nil => rfl
  | cons c text ih =>
    obtain ⟨other, later⟩ := not_or.mp (fun h => plain (List.mem_cons.mpr h))
    have stays : Scan.step ⟨lines, pieces, .comment⟩ c = ⟨lines, pieces, .comment⟩ := by
      simp [Scan.step, scanAct, Ne.symm other]
    rw [run_cons, stays, ih later]

theorem run_gap {blanks : Str} (blank : ∀ c ∈ blanks, isBlank c = true) (unescaped : scanAct mode 10 = .finish .text) :
    Scan.run ⟨lines, pieces, mode⟩ blanks = ⟨lines, pieces ++ if mode = .text then blanks.map fun c => [c] else [], mode⟩ := by
  induction blanks generalizing pieces with
  | nil => simp [Scan.run]
  | cons c blanks ih =>
    obtain ⟨first, later⟩ := List.forall_mem_cons.mp blank
    have first : c = 9 ∨ c = 32 := by simpa [isBlank] using first
    rw [run_cons]
    cases mode with
    | text =>
      have stores : scanAct .text c = .store [c] .text := by rcases first with rfl | rfl <;> rfl
      have grows : Scan.step ⟨lines, pieces, .text⟩ c = ⟨lines, pieces ++ [[c]], .text⟩ := by simp [Scan.step, stores]
      rw [grows, ih later]
      simp
    | joined =>
      have skips : scanAct .joined c = .skip .joined := by rcases first with rfl | rfl <;> rfl
      have stays : Scan.step ⟨lines, pieces, .joined⟩ c = ⟨lines, pieces, .joined⟩ := by simp [Scan.step, skips]
      rw [stays, ih later]
      rfl
    | comment =>
      have skips : scanAct .comment c = .skip .comment := by rcases first with rfl | rfl <;> rfl
      have stays : Scan.step ⟨lines, pieces, .comment⟩ c = ⟨lines, pieces, .comment⟩ := by simp [Scan.step, skips]
      rw [stays, ih later]
      rfl
    | quoted => cases unescaped
    | cr => cases unescaped

theorem run_trailing {extra : Str} (trailing : Trailing extra) (unescaped : scanAct mode 10 = .finish .text) :
    ∃ gap mode', Scan.run ⟨lines, pieces, mode⟩ extra = ⟨lines, pieces ++ gap, mode'⟩ ∧
      (∀ c ∈ gap.flatten, isBlank c = true) ∧ (mode = .text ∨ gap = []) ∧ (mode' = mode ∨ mode' = .comment) := by
  obtain ⟨comment, newline⟩ := trailing
  have blank : ∀ c ∈ extra.takeWhile isBlank, isBlank c = true := List.all_eq_true.mp List.all_takeWhile
  have split := List.takeWhile_append_dropWhile (p := isBlank) (l := extra)
  generalize extra.takeWhile isBlank = blanks, extra.dropWhile isBlank = rest at blank split comment
  subst split
  have later : 10 ∉ rest := fun member => newline (List.mem_append_right _ member)
  have bytes : ∀ c ∈ (if mode = .text then blanks.map fun c => [c] else []).flatten, isBlank c = true := by
    split
    · intro c member
      obtain ⟨piece, inside, own⟩ := List.mem_flatten.mp member
      obtain ⟨d, here, rfl⟩ := List.mem_map.mp inside
      rw [List.mem_singleton.mp own]
      exact blank d here
    · simp
  have none : mode = .text ∨ (if mode = .text then blanks.map fun c => [c] else []) = ([] : List Str) := by
    split
    · exact Or.inl ‹_›
    · exact Or.inr rfl
  rw [run_append, run_gap blank unescaped]
  cases rest with
  | nil => exact ⟨_, mode, rfl, bytes, none, Or.inl rfl⟩
  | cons c rest =>
    have hash : c = 35 := comment c rfl
    subst hash
    have enters : scanAct mode 35 = .skip .comment := by
      cases mode with
      | text | joined | comment => rfl
      | quoted | cr => cases unescaped
    refine ⟨_, .comment, ?_, bytes, none, Or.inr rfl⟩
    rw [run_cons]
    unfold Scan.step
    dsimp only
    rw [enters]
    exact run_skipped fun member => later (List.mem_cons_of_mem _ member)

/-- The line that the loop stores up to its end, and what is left of the stream. -/
theorem loopFrom_end {eol : Str} (ends : LineEnd mode eol rest) (unescaped : scanAct mode 10 = .finish .text)
    (filled : eol ≠ []) (short : line.length < room) : loopFrom room mode line (eol ++ rest) = (line ++ [10], false, rest) := by
  cases ends with
  | newline =>
    rw [List.singleton_append, loopFrom_step short, unescaped]
    rfl
  | crlf =>
    cases mode with
    | text | joined =>
      rw [List.cons_append, loopFrom_step short]
      rfl
    | comment => rfl
    | quoted | cr => cases unescaped
  | cr other single =>
    cases mode with
    | text | joined =>
      rw [List.singleton_append, loopFrom_step short]
      simp [scanAct, single]
    | comment => exact absurd rfl other
    | quoted | cr => cases unescaped
  | eof => exact absurd rfl filled

end

end Ifupdown
