import Mathlib.Logic.Function.Iterate
import Ifupdown.Base.LeadingOnes
import Ifupdown.Model.Address

/-! Dotted netmasks become the length of their prefix. -/
namespace Ifupdown

open LeadingOnes

def dotted (a b c d : UInt8) : Str :=
  decimal a.toNat ++ str "." ++ decimal b.toNat ++ str "." ++ decimal c.toNat ++ str "." ++ decimal d.toNat

/-- The bits of a mask in network order, the first one in front. -/
def maskBits (bytes : List UInt8) : List Bool := bytes.flatMap fun byte => digits 8 byte.toNat

/-- `in.s_addr`, the bytes of the address as the host reads them. -/
def sAddr (littleEndian : Bool) (bytes : List UInt8) : Nat :=
  (if littleEndian then bytes.reverse else bytes).foldl (fun n c => 256 * n + c.toNat) 0

/-- `htonl` turns the four bytes around where the host has the lowest one first. -/
def htonl (littleEndian : Bool) (n : Nat) : Nat :=
  if littleEndian then n % 256 * 2 ^ 24 + n / 2 ^ 8 % 256 * 2 ^ 16 + n / 2 ^ 16 % 256 * 2 ^ 8 + n / 2 ^ 24 % 256 else n

def shiftRound (loop : Nat × Nat) : Nat × Nat := (loop.1 / 2, (loop.2 + 2 ^ 64 - 1) % 2 ^ 64)

section
variable {bits r rounds fuel : Nat}

theorem dot_mem (a b c d : UInt8) : 46 ∈ dotted a b c d := by
  have dot : 46 ∈ str "." := by decide
  unfold dotted
  simp only [List.mem_append]
  exact Or.inl (Or.inr dot)

theorem maskBits_length (bytes : List UInt8) : (maskBits bytes).length = 8 * bytes.length := by
  induction bytes with
  | nil => rfl
  | cons byte bytes ih =>
    unfold maskBits at ih ⊢
    rw [List.flatMap_cons, List.length_append, digits_length, ih, List.length_cons]
    omega

theorem number_maskBits (bytes : List UInt8) : number (maskBits bytes) = bytes.foldl (fun n c => 256 * n + c.toNat) 0 := by
  induction bytes using List.reverseRecOn with
  | nil => rfl
  | append_singleton bytes byte ih =>
    have small : byte.toNat % 2 ^ 8 = byte.toNat := Nat.mod_eq_of_lt byte.toNat_lt
    unfold maskBits at ih ⊢
    rw [List.flatMap_append, List.flatMap_singleton, number_append, number_digits, digits_length, small, ih, List.foldl_append,
      Nat.mul_comm]
    rfl

/-- On either kind of host the number is the one that the bits say in network order. -/
theorem htonl_sAddr (littleEndian : Bool) (a b c d : UInt8) :
    htonl littleEndian (sAddr littleEndian [a, b, c, d]) = number (maskBits [a, b, c, d]) := by
  rw [number_maskBits]
  cases littleEndian with
  | false => rfl
  | true =>
    unfold htonl sAddr
    simp only [if_true, List.reverse_cons, List.reverse_nil, List.nil_append, List.cons_append, List.foldl_cons, List.foldl_nil]
    generalize read : 256 * (256 * (256 * (256 * 0 + d.toNat) + c.toNat) + b.toNat) + a.toNat = n
    have first : n % 256 = a.toNat := by
      have small := a.toNat_lt
      omega
    have second : n / 2 ^ 8 % 256 = b.toNat := by
      have small := And.intro a.toNat_lt b.toNat_lt
      omega
    have third : n / 2 ^ 16 % 256 = c.toNat := by
      have small := And.intro (And.intro a.toNat_lt b.toNat_lt) c.toNat_lt
      omega
    have fourth : n / 2 ^ 24 % 256 = d.toNat := by
      have small := And.intro (And.intro a.toNat_lt b.toNat_lt) (And.intro c.toNat_lt d.toNat_lt)
      omega
    rw [first, second, third, fourth]
    omega

theorem shiftRounds (bits : Nat) {j : Nat} (within : j ≤ 32) : shiftRound^[j] (bits, 32) = (bits / 2 ^ j, 32 - j) := by
  induction j with
  | zero => rw [Function.iterate_zero_apply, Nat.pow_zero, Nat.div_one]
  | succ j ih =>
    have wraps : (32 - j + 2 ^ 64 - 1) % 2 ^ 64 = 32 - (j + 1) := by omega
    rw [Function.iterate_succ_apply', ih (Nat.le_of_succ_le within), shiftRound, wraps, Nat.div_div_eq_div_mul, Nat.pow_succ]

/-- The loop takes the rounds that there are until no bit is left, with whatever fuel lasts so long. -/
theorem shiftOut_rounds (ends : (shiftRound^[rounds] (bits, r)).1 = 0) (before : ∀ j < rounds, (shiftRound^[j] (bits, r)).1 ≠ 0)
    (enough : rounds ≤ fuel) : shiftOut fuel bits r = (shiftRound^[rounds] (bits, r)).2 := by
  induction rounds generalizing fuel bits r with
  | zero =>
    have none : bits = 0 := ends
    cases fuel with
    | zero => rfl
    | succ fuel => exact if_pos none
  | succ rounds ih =>
    obtain ⟨fuel, rfl⟩ : ∃ n, fuel = n + 1 := ⟨fuel - 1, by omega⟩
    have left : bits ≠ 0 := before 0 (Nat.succ_pos rounds)
    unfold shiftOut
    rw [if_neg left]
    exact ih ends (fun j earlier => before (j + 1) (Nat.succ_lt_succ earlier)) (Nat.le_of_succ_le_succ enough)

end

/-- The loop ends after as many rounds as it takes to shift the complement out, which are 32 at most. With each round the
counter is one less, and what remains of it is the number of leading ones of the mask. -/
theorem netmask_converted {inetPton : InetPton} {a b c d : UInt8} (littleEndian : Bool)
    (known : inetPton .inet (dotted a b c d) = some [a, b, c, d]) :
    let mask := maskBits [a, b, c, d]
    let start := (2 ^ 32 - 1 - htonl littleEndian (sAddr littleEndian [a, b, c, d]), 32)
    (∃ rounds, (shiftRound^[rounds] start).1 = 0 ∧ (∀ j < rounds, (shiftRound^[j] start).1 ≠ 0) ∧
      (∀ j ≤ rounds, (shiftRound^[j] start).2 + j = 32) ∧
      countSetBits inetPton (dotted a b c d) = (shiftRound^[rounds] start).2) ∧
    countSetBits inetPton (dotted a b c d) = leadingOnes mask ∧
    ∀ ones zeros, mask = List.replicate ones true ++ List.replicate zeros false →
      countSetBits inetPton (dotted a b c d) = mask.count true := by
  have length : (maskBits [a, b, c, d]).length = 32 := maskBits_length [a, b, c, d]
  have filled := @number_not (maskBits [a, b, c, d])
  have size := @size_not (maskBits [a, b, c, d])
  rw [length] at filled size
  generalize number ((maskBits [a, b, c, d]).map not) = flipped at filled size
  have complement : 2 ^ 32 - 1 - number (maskBits [a, b, c, d]) = flipped := by omega
  have ends : (shiftRound^[flipped.size] (flipped, 32)).1 = 0 := by
    rw [shiftRounds flipped (by omega)]
    exact (halvings ..).mpr (Nat.le_refl _)
  have before : ∀ j < flipped.size, (shiftRound^[j] (flipped, 32)).1 ≠ 0 := by
    intro j earlier none
    rw [shiftRounds flipped (by omega)] at none
    exact Nat.not_le_of_lt earlier ((halvings ..).mp none)
  have counted : countSetBits inetPton (dotted a b c d) = (shiftRound^[flipped.size] (flipped, 32)).2 := by
    unfold countSetBits
    rw [if_pos (dot_mem a b c d), known]
    dsimp only
    rw [← number_maskBits, complement]
    exact shiftOut_rounds ends before (by omega)
  have leading : countSetBits inetPton (dotted a b c d) = leadingOnes (maskBits [a, b, c, d]) := by
    rw [counted, shiftRounds flipped (by omega)]
    exact Nat.sub_eq_of_eq_add' size.symm
  rw [htonl_sAddr, complement]
  refine ⟨⟨flipped.size, ends, before, fun j within => ?_, counted⟩, leading, fun ones zeros contiguous => ?_⟩
  · rw [shiftRounds flipped (by omega)]
    exact Nat.sub_add_cancel (by omega)
  · rw [leading, contiguous]
    exact leadingOnes_contiguous ones zeros

def twentyPton : InetPton := fun domain text => if domain = .inet ∧ text = dotted 255 255 240 0 then some [255, 255, 240, 0] else none

theorem netmask_converted_twenty :
    let mask := maskBits [255, 255, 240, 0]
    let start := (2 ^ 32 - 1 - htonl true (sAddr true [255, 255, 240, 0]), 32)
    (∃ rounds, (shiftRound^[rounds] start).1 = 0 ∧ (∀ j < rounds, (shiftRound^[j] start).1 ≠ 0) ∧
      (∀ j ≤ rounds, (shiftRound^[j] start).2 + j = 32) ∧
      countSetBits twentyPton (dotted 255 255 240 0) = (shiftRound^[rounds] start).2) ∧
    countSetBits twentyPton (dotted 255 255 240 0) = leadingOnes mask ∧
    ∀ ones zeros, mask = List.replicate ones true ++ List.replicate zeros false →
      countSetBits twentyPton (dotted 255 255 240 0) = mask.count true :=
  netmask_converted true (if_pos ⟨rfl, rfl⟩)

example : leadingOnes (maskBits [255, 255, 240, 0]) = 20 ∧ leadingOnes (maskBits [255, 0, 255, 0]) = 8 := by decide

end Ifupdown
