import Ifupdown.Base.Text
import Mathlib.Data.Nat.Digits.Lemmas
import Mathlib.Tactic.IntervalCases

/-! Numbers as printf writes them and strtoul reads them. -/
namespace Ifupdown

def digit (d : Nat) : UInt8 := 48 + d.toUInt8

/-- `%zu` -/
def decimal (n : Nat) : Str := if n = 0 then [48] else (Nat.digits 10 n).reverse.map digit

def isDigit (c : UInt8) : Bool := 48 ≤ c && c ≤ 57

def digitsValue (digits : Str) : Nat := digits.foldl (fun n c => 10 * n + (c.toNat - 48)) 0

def ulongMax : Nat := 2 ^ 64 - 1

def strtoul (s : Str) : Nat :=
  let s := s.dropWhile isSpace
  let negative := s.head? == some 45
  let s := if negative || s.head? == some 43 then s.tail else s
  let value := digitsValue (s.takeWhile isDigit)
  if ulongMax < value then ulongMax
  else if negative then (2 ^ 64 - value) % 2 ^ 64
  else value

/-- `strtol(s, NULL, 10)` as it is converted to `size_t` -/
def strtol (s : Str) : Nat :=
  let s := s.dropWhile isSpace
  let negative := s.head? == some 45
  let s := if negative || s.head? == some 43 then s.tail else s
  let value := digitsValue (s.takeWhile isDigit)
  if negative then (2 ^ 64 - min value (2 ^ 63)) % 2 ^ 64 else min value (2 ^ 63 - 1)

theorem digit_toNat {d : Nat} (small : d < 10) : (digit d).toNat = 48 + d := by
  unfold digit
  interval_cases d <;> rfl

theorem digit_isDigit {d : Nat} (small : d < 10) : isDigit (digit d) = true := by
  unfold digit
  interval_cases d <;> rfl

theorem decimal_digits (n : Nat) : ∀ c ∈ decimal n, isDigit c = true := by
  intro c member
  unfold decimal at member
  split at member
  · rw [List.mem_singleton.mp member]
    rfl
  · obtain ⟨d, listed, rfl⟩ := List.mem_map.mp member
    exact digit_isDigit (Nat.digits_lt_base (by decide) (List.mem_reverse.mp listed))

theorem decimal_ne_nil (n : Nat) : decimal n ≠ [] := by
  unfold decimal
  split
  · simp
  · rename_i positive
    simpa [Nat.digits_eq_nil_iff_eq_zero] using positive

theorem decimal_length {n k : Nat} (small : n < 10 ^ k) (some_ : 0 < k) : (decimal n).length ≤ k := by
  unfold decimal
  split
  · exact some_
  · rw [List.length_map, List.length_reverse]
    exact (Nat.digits_length_le_iff (by decide) n).mpr small

theorem digitsValue_decimal (n : Nat) : digitsValue (decimal n) = n := by
  have value : ∀ l : List Nat, (∀ d ∈ l, d < 10) → digitsValue (l.reverse.map digit) = Nat.ofDigits 10 l := by
    intro l small
    rw [digitsValue, List.foldl_map, List.foldl_reverse]
    induction l with
    | nil => rfl
    | cons d rest ih =>
      obtain ⟨head, tail⟩ := List.forall_mem_cons.mp small
      rw [List.foldr_cons, ih tail, Nat.ofDigits_cons, digit_toNat head]
      omega
  unfold decimal
  split
  · rename_i zero
    rw [zero]
    rfl
  · rw [value _ fun d member => Nat.digits_lt_base (by decide) member, Nat.ofDigits_digits]

theorem isDigit_not_isSpace {c : UInt8} (h : isDigit c = true) : isSpace c = false := by
  unfold isDigit at h
  unfold isSpace
  simp only [Bool.and_eq_true, decide_eq_true_eq] at h
  simp only [Bool.or_eq_false_iff, Bool.and_eq_false_iff, beq_eq_false_iff_ne, decide_eq_false_iff_not]
  have low := h.1
  constructor
  · rintro rfl
    exact absurd low (by decide)
  · refine Or.inr fun high => ?_
    exact absurd (UInt8.le_trans low high) (by decide)

theorem takeWhile_all {p : UInt8 → Bool} {s : Str} (all : ∀ c ∈ s, p c = true) : s.takeWhile p = s := by
  have split : (s ++ []).takeWhile p = s ++ [].takeWhile p := List.takeWhile_append_of_pos all
  rwa [List.append_nil, List.takeWhile_nil, List.append_nil] at split

section
variable {s : Str}

theorem digits_plain (digits : ∀ c ∈ s, isDigit c = true) :
    s.dropWhile isSpace = s ∧ (s.head? == some 45) = false ∧ (s.head? == some 43) = false := by
  cases s with
  | nil => exact ⟨rfl, rfl, rfl⟩
  | cons c rest =>
    obtain ⟨first, -⟩ := List.forall_mem_cons.mp digits
    have plain : c ≠ 45 ∧ c ≠ 43 := by
      constructor <;> (rintro rfl; exact absurd first (by decide))
    refine ⟨List.dropWhile_cons_of_neg (by rw [isDigit_not_isSpace first]; exact Bool.false_ne_true), ?_, ?_⟩
    · simpa using plain.1
    · simpa using plain.2

theorem strtoul_digits (digits : ∀ c ∈ s, isDigit c = true) : strtoul s = min (digitsValue s) ulongMax := by
  obtain ⟨blanks, minus, plus⟩ := digits_plain digits
  unfold strtoul
  simp only [blanks, minus, plus, Bool.or_false, Bool.false_eq_true, if_false]
  rw [takeWhile_all digits]
  split <;> omega

theorem strtol_digits (digits : ∀ c ∈ s, isDigit c = true) : strtol s = min (digitsValue s) (2 ^ 63 - 1) := by
  obtain ⟨blanks, minus, plus⟩ := digits_plain digits
  unfold strtol
  simp only [blanks, minus, plus, Bool.or_false, Bool.false_eq_true, if_false]
  rw [takeWhile_all digits]

end

/-- What has been printed is read back, if it fits. -/
theorem strtoul_decimal {n : Nat} (fits : n ≤ ulongMax) : strtoul (decimal n) = n := by
  rw [strtoul_digits (decimal_digits n), digitsValue_decimal, Nat.min_eq_left fits]

example : strtoul (str " 4210 explicit") = 4210 := by decide

end Ifupdown
