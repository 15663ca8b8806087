import Mathlib.Algebra.Group.Nat.Defs
import Mathlib.Data.Nat.Size

/-! Binary numbers by their digits, the highest first, and how many ones they start with. -/
namespace LeadingOnes

def number : List Bool → Nat
  | [] => 0
  | bit :: bits => bit.toNat * 2 ^ bits.length + number bits

def digits : Nat → Nat → List Bool
  | 0, _ => []
  | width + 1, n => n.testBit width :: digits width n

/-- The ones in front of the first zero. -/
def leadingOnes (bits : List Bool) : Nat := (bits.takeWhile id).length

variable {bits front behind : List Bool} {n width : Nat}

@[simp] theorem digits_length : (digits width n).length = width := by
  induction width with
  | zero => rfl
  | succ width ih => rw [digits, List.length_cons, ih]

theorem number_digits : number (digits width n) = n % 2 ^ width := by
  induction width with
  | zero => rw [pow_zero, Nat.mod_one, digits, number]
  | succ width ih =>
    rw [digits, number, ih, digits_length, Nat.toNat_testBit, Nat.mod_pow_succ, Nat.mul_comm, Nat.add_comm]

theorem number_append : number (front ++ behind) = number front * 2 ^ behind.length + number behind := by
  induction front with
  | nil => rw [List.nil_append, number, Nat.zero_mul, Nat.zero_add]
  | cons bit front ih =>
    rw [List.cons_append, number, number, ih, List.length_append, Nat.pow_add, Nat.add_mul, Nat.mul_assoc, Nat.add_assoc]

theorem number_not : number (bits.map not) + number bits + 1 = 2 ^ bits.length := by
  induction bits with
  | nil => rfl
  | cons bit bits ih =>
    rw [List.map_cons, number, number, List.length_map, List.length_cons, Nat.pow_succ]
    cases bit with
    | false =>
      rw [Bool.not_false, Bool.toNat_true, Bool.toNat_false]
      omega
    | true =>
      rw [Bool.not_true, Bool.toNat_true, Bool.toNat_false]
      omega

theorem size_not : (number (bits.map not)).size + leadingOnes bits = bits.length := by
  induction bits with
  | nil => rfl
  | cons bit bits ih =>
    rw [List.map_cons, number, List.length_map, List.length_cons]
    cases bit with
    | false =>
      have filled := @number_not bits
      have low : (true.toNat * 2 ^ bits.length + number (bits.map not)).size ≤ bits.length + 1 := by
        rw [Nat.size_le, Nat.pow_succ, Bool.toNat_true]
        omega
      have high : bits.length < (true.toNat * 2 ^ bits.length + number (bits.map not)).size := by
        rw [Nat.lt_size, Bool.toNat_true]
        omega
      have none : leadingOnes (false :: bits) = 0 := rfl
      rw [none]
      exact Nat.le_antisymm low high
    | true =>
      have one : leadingOnes (true :: bits) = leadingOnes bits + 1 := rfl
      rw [one, Bool.not_true, Bool.toNat_false, Nat.zero_mul, Nat.zero_add, ← Nat.add_assoc, ih]

theorem halvings (n j : Nat) : n / 2 ^ j = 0 ↔ n.size ≤ j := by
  rw [Nat.size_le, Nat.div_eq_zero_iff]
  exact or_iff_right (Nat.ne_of_gt (Nat.two_pow_pos j))

theorem leadingOnes_contiguous (ones zeros : Nat) :
    leadingOnes (List.replicate ones true ++ List.replicate zeros false) =
      (List.replicate ones true ++ List.replicate zeros false).count true := by
  have behind : (List.replicate zeros false).takeWhile id = [] := by cases zeros <;> rfl
  have front : ∀ bit ∈ List.replicate ones true, id bit = true := fun bit member => List.eq_of_mem_replicate member
  unfold leadingOnes
  rw [List.takeWhile_append_of_pos front, behind, List.count_append, List.append_nil, List.length_replicate,
    List.count_replicate_self, List.count_replicate]
  rfl

end LeadingOnes
