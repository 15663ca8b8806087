import Ifupdown.Model.LogicalLines

/-! Streams that end at the end of a line. -/
namespace Ifupdown

def Scan.Fresh (scan : Scan) : Prop := scan.pieces = [] ∧ scan.mode = .text

/-- The last newline of the stream ends its last line. -/
def Terminated (stream : Str) : Prop := (Scan.run {} stream).Fresh

instance (stream : Str) : Decidable (Terminated stream) := inferInstanceAs (Decidable (_ ∧ _))

section
variable {scan scan' : Scan} {stream rest : Str} {mode mode' : ScanMode} {lines : List (List Str)} {pieces : List Str} {c : UInt8} {room : Nat}

theorem run_fresh (fresh : (scan.run stream).Fresh) (same : scan'.mode = scan.mode)
    (clear : scan.pieces = [] → scan'.pieces = []) : (scan'.run stream).Fresh := by
  induction stream generalizing scan scan' with
  | nil => exact ⟨clear fresh.1, same.trans fresh.2⟩
  | cons c stream ih =>
    rw [run_cons] at fresh ⊢
    refine @ih (scan.step c) (scan'.step c) fresh ?_ ?_
    · unfold Scan.step
      rw [same]
      split <;> rfl
    · unfold Scan.step
      rw [same]
      split <;> simp_all

/-- The loop that reads on from here stops before the end of the stream and reads the same whatever stands behind it, or it
comes to the end with nothing stored. -/
def Apart (room : Nat) (quoted joined : Bool) (line stream : Str) : Prop :=
  (∃ stored rest, Terminated rest ∧
      ∀ behind, fgetlineLoop room quoted joined line (stream ++ behind) = (stored, false, rest ++ behind)) ∨
    ∀ behind, fgetlineLoop room quoted joined line (stream ++ behind) = fgetlineLoop room false false [] behind

theorem likeText_terminated (like : LikeText mode rest) (fresh : (Scan.run ⟨lines, pieces, mode⟩ rest).Fresh) : Terminated rest := by
  cases rest with
  | nil => exact ⟨rfl, rfl⟩
  | cons c rest =>
    have same : Scan.step ⟨lines, pieces, mode⟩ c = Scan.step ⟨lines, pieces, .text⟩ c := by
      unfold Scan.step
      dsimp only
      rw [likeText_act like]
    rw [run_cons, same, ← run_cons] at fresh
    exact run_fresh fresh rfl fun _ => rfl

/-- The loop that is entered where the scan stands stops before the end of the stream and reads the same whatever stands behind it,
or it comes to the end with nothing stored. -/
theorem loopFrom_apart (fresh : (Scan.run ⟨lines, pieces, mode⟩ stream).Fresh)
    (open_ : mode = .quoted ∨ mode = .comment → pieces.flatten.length < room) :
    (∃ stored rest, Terminated rest ∧
        ∀ behind, loopFrom room mode pieces.flatten (stream ++ behind) = (stored, false, rest ++ behind)) ∨
      ∀ behind, loopFrom room mode pieces.flatten (stream ++ behind) = loopFrom room .text [] behind := by
  induction stream generalizing pieces mode lines with
  | nil =>
    obtain ⟨none, text⟩ := fresh
    obtain rfl : pieces = [] := none
    obtain rfl : mode = .text := text
    exact Or.inr fun behind => rfl
  | cons c stream ih =>
    rw [run_cons] at fresh
    simp only [List.cons_append]
    by_cases short : pieces.flatten.length < room
    · simp only [loopFrom_step short]
      cases act : scanAct mode c with
      | skip mode' =>
        rw [step_skip act] at fresh
        exact ih fresh fun _ => short
      | store piece mode' =>
        obtain ⟨unquoted, text⟩ := scanAct_stored act
        rw [step_store act] at fresh
        have later := ih fresh fun open_ => (open_.elim unquoted text).elim
        rwa [List.flatten_append, List.flatten_singleton] at later
      | finish mode' =>
        rw [step_finish act] at fresh
        refine Or.inl ?_
        rcases scanAct_finish act with rfl | rfl
        · exact ⟨_, stream, run_fresh fresh rfl fun _ => rfl, fun behind => rfl⟩
        cases stream with
        | nil => cases fresh.2
        | cons d stream =>
          by_cases newline : d = 10
          · subst newline
            exact ⟨_, stream, run_fresh fresh rfl fun _ => rfl, fun behind => rfl⟩
          · refine ⟨pieces.flatten ++ [10], d :: stream, ?_, fun behind => by simp [newline]⟩
            exact likeText_terminated (Or.inr (Or.inr ⟨rfl, fun e first => by cases first; exact newline⟩)) fresh
    · have plain := not_or.mp (mt open_ short)
      by_cases like : LikeText mode (c :: stream)
      · refine Or.inl ⟨pieces.flatten, c :: stream, likeText_terminated like fresh, fun behind => ?_⟩
        exact loopFrom_full short like
      · obtain ⟨mode', act, later, moves⟩ := @loopFrom_skips stream mode c room pieces.flatten like plain
        rw [step_skip act] at fresh
        simp only [moves]
        exact ih fresh fun open_ => (open_.elim later.1 later.2).elim

theorem terminated_apart (terminated : Terminated stream) : Apart room false false [] stream :=
  @loopFrom_apart stream .text [] [] room terminated (by simp)

end

end Ifupdown
