/-! Runs in which a schedule says whose turn it is. -/
namespace Schedule

variable {ι σ : Type} (advance : σ → ι → σ)

def run (s : σ) (schedule : List ι) : σ := schedule.foldl advance s

/-- Every step of the run is taken in a state that satisfies `ok`. -/
def Meets (ok : σ → ι → Prop) : σ → List ι → Prop
  | _, [] => True
  | s, p :: rest => ok s p ∧ Meets ok (advance s p) rest

instance decidableMeets (ok : σ → ι → Prop) [∀ s p, Decidable (ok s p)] :
    (s : σ) → (schedule : List ι) → Decidable (Meets advance ok s schedule)
  | _, [] => isTrue trivial
  | s, p :: rest =>
    have : Decidable (Meets advance ok (advance s p) rest) := decidableMeets ok (advance s p) rest
    inferInstanceAs (Decidable (_ ∧ _))

variable {advance}

@[simp] theorem run_nil (s : σ) : run advance s [] = s := rfl

@[simp] theorem run_cons (s : σ) (p : ι) (rest : List ι) :
    run advance s (p :: rest) = run advance (advance s p) rest := rfl

/-- What each step preserves, the run preserves. -/
theorem run_invariant {ok : σ → ι → Prop} {s : σ} {schedule : List ι}
    (meets : Meets advance ok s schedule) (inv : σ → Prop) (start : inv s)
    (step : ∀ s p, ok s p → inv s → inv (advance s p)) : inv (run advance s schedule) := by
  induction schedule generalizing s with
  | nil => exact start
  | cons p rest ih => exact ih meets.2 (step s p meets.1 start)

end Schedule
