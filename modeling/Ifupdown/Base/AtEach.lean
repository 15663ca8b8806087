/-! Statements about every element of a list and the elements before it. -/

/-- `P` holds of each element together with the prefix in front of it. -/
def AtEach {β : Type} (P : List β → β → Prop) (l : List β) : Prop :=
  ∀ pre x post, l = pre ++ x :: post → P pre x

namespace AtEach

variable {β : Type} {P Q : List β → β → Prop} {l k : List β}

@[simp] theorem nil : AtEach P [] := by
  intro pre x post same
  cases pre <;> cases same

theorem mono (h : AtEach P l) (imp : ∀ pre x, P pre x → Q pre x) : AtEach Q l :=
  fun pre x post same => imp pre x (h pre x post same)

theorem of_mem (h : ∀ pre, ∀ x ∈ l, P pre x) : AtEach P l := by
  intro pre x post same
  apply h
  rw [same]
  exact List.mem_append_right _ List.mem_cons_self

theorem append : AtEach P (l ++ k) ↔ AtEach P l ∧ AtEach (fun pre x => P (l ++ pre) x) k := by
  constructor
  · intro h
    refine ⟨fun pre x post same => h pre x (post ++ k) ?_, fun pre x post same => h (l ++ pre) x post ?_⟩
    · rw [same, List.append_assoc, List.cons_append]
    · rw [same, List.append_assoc]
  · rintro ⟨left, right⟩ pre x post same
    rcases List.append_eq_append_iff.mp same with ⟨middle, before, after⟩ | ⟨middle, before, after⟩
    · rw [before]
      exact right middle x post after
    · cases middle with
      | nil =>
        rw [List.nil_append] at after
        simpa [before] using right [] x post after.symm
      | cons y middle =>
        obtain ⟨rfl, rfl⟩ := List.cons.inj after
        exact left pre x middle before

end AtEach
