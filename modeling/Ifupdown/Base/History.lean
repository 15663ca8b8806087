import Mathlib.Tactic.Tauto

/-! Faults that a run of partial steps makes and mends. -/
namespace Ifupdown

variable {σ ε : Type} (apply : σ → ε → Option σ)

def Happens (such : σ → ε → Prop) : σ → List ε → Prop
  | _, [] => False
  | state, event :: rest => such state event ∨ ∃ next ∈ apply state event, Happens such next rest

/-- One of the events makes the fault, and no later one mends it. -/
def LeftFaulty (makes mends : σ → ε → Prop) : σ → List ε → Prop
  | _, [] => False
  | state, event :: rest =>
    ∃ next ∈ apply state event, makes state event ∧ ¬ Happens apply mends next rest ∨ LeftFaulty makes mends next rest

instance decidableHappens {such : σ → ε → Prop} [∀ state event, Decidable (such state event)] :
    (state : σ) → (events : List ε) → Decidable (Happens apply such state events)
  | _, [] => inferInstanceAs (Decidable False)
  | state, event :: rest =>
    have (next : σ) : Decidable (Happens apply such next rest) := decidableHappens next rest
    inferInstanceAs (Decidable (_ ∨ ∃ next ∈ apply state event, _))

instance decidableLeftFaulty {makes mends : σ → ε → Prop} [∀ state event, Decidable (makes state event)]
    [∀ state event, Decidable (mends state event)] :
    (state : σ) → (events : List ε) → Decidable (LeftFaulty apply makes mends state events)
  | _, [] => inferInstanceAs (Decidable False)
  | state, event :: rest =>
    have (next : σ) : Decidable (LeftFaulty apply makes mends next rest) := decidableLeftFaulty next rest
    inferInstanceAs (Decidable (∃ next ∈ apply state event, _ ∧ _ ∨ _))

variable {apply}

theorem happens_append {such : σ → ε → Prop} {state next : σ} {events more : List ε} (run : events.foldlM apply state = some next) :
    Happens apply such state (events ++ more) ↔ Happens apply such state events ∨ Happens apply such next more := by
  induction events generalizing state with
  | nil =>
    cases run
    simp [Happens]
  | cons event rest ih =>
    rw [List.foldlM_cons] at run
    obtain ⟨first, here, run⟩ := Option.bind_eq_some_iff.mp run
    simp only [List.cons_append, Happens, here, Option.mem_some_iff, exists_eq_left', ih run, or_assoc]

/-- What each event does to the fault says what a run leaves of it. -/
theorem run_faulty {faulty : σ → Prop} {makes mends : σ → ε → Prop} {state last : σ} {events : List ε}
    (step : ∀ event ∈ events, ∀ state next, apply state event = some next →
      (faulty next ↔ faulty state ∧ ¬ mends state event ∨ makes state event))
    (run : events.foldlM apply state = some last) :
    faulty last ↔ faulty state ∧ ¬ Happens apply mends state events ∨ LeftFaulty apply makes mends state events := by
  induction events generalizing state with
  | nil =>
    cases run
    simp [Happens, LeftFaulty]
  | cons event rest ih =>
    obtain ⟨first, later⟩ := List.forall_mem_cons.mp step
    rw [List.foldlM_cons] at run
    obtain ⟨next, here, run⟩ := Option.bind_eq_some_iff.mp run
    rw [ih later run, first state next here]
    simp only [Happens, LeftFaulty, here, Option.mem_some_iff, exists_eq_left']
    tauto

end Ifupdown
