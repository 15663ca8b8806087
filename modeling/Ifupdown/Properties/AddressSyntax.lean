import Ifupdown.Model.Address

/-! Which texts are taken for addresses. -/
namespace Ifupdown

def addressDomain (text : Str) : AddrDomain := if 58 ∈ text then .inet6 else .inet

def AddrDomain.bits : AddrDomain → Nat
  | .inet => 32
  | .inet6 => 128

def PrefixLength (domain : AddrDomain) (text : Str) : Prop :=
  text ≠ [] ∧ (∀ c ∈ text, isDigit c = true) ∧ digitsValue text ≤ domain.bits

instance (domain : AddrDomain) (text : Str) : Decidable (PrefixLength domain text) := inferInstanceAs (Decidable (_ ∧ _ ∧ _))

/-- The text is an address, and this is the prefix length that stands behind it, or 0. -/
inductive Denotes (inetPton : InetPton) : Str → Nat → Prop
  | bare {addr : Str} : inetPton (addressDomain addr) addr ≠ none → Denotes inetPton addr 0
  | netmask {addr n : Str} : inetPton (addressDomain addr) addr ≠ none → PrefixLength (addressDomain addr) n →
      Denotes inetPton (addr ++ 47 :: n) (digitsValue n)

section
variable {inetPton : InetPton} {text before behind : Str} {domain : AddrDomain} {n : Nat}

theorem digit_fresh {c : UInt8} (other : isDigit c = false) (digits : ∀ c ∈ text, isDigit c = true) : c ∉ text := by
  intro member
  exact absurd (other.symm.trans (digits c member)) Bool.false_ne_true

theorem PrefixLength.slash (length : PrefixLength domain text) : 47 ∉ text := digit_fresh rfl length.2.1

theorem PrefixLength.same_domain (length : PrefixLength domain behind) : addressDomain (before ++ 47 :: behind) = addressDomain before := by
  have colon : 58 ∉ behind := digit_fresh rfl length.2.1
  unfold addressDomain
  simp [colon]

theorem PrefixLength.strtol (length : PrefixLength domain text) : strtol text = digitsValue text := by
  obtain ⟨-, digits, small⟩ := length
  have bits : domain.bits ≤ 128 := by cases domain <;> decide
  rw [strtol_digits digits, Nat.min_eq_left (by omega)]

theorem denotes_slash (slash : ∀ domain text, 47 ∈ text → inetPton domain text = none) (last : 47 ∉ behind) :
    Denotes inetPton (before ++ 47 :: behind) n ↔ inetPton (addressDomain before) before ≠ none ∧
      PrefixLength (addressDomain before) behind ∧ digitsValue behind = n := by
  constructor
  · intro denotes
    generalize whole : before ++ 47 :: behind = text at denotes
    cases denotes with
    | bare accepted =>
      subst whole
      exact absurd (slash _ _ (by simp)) accepted
    | @netmask addr n accepted length =>
      have found := strrchr_last last before
      rw [whole, strrchr_last length.slash addr] at found
      cases found
      exact ⟨accepted, length, rfl⟩
  · rintro ⟨accepted, length, rfl⟩
    exact .netmask accepted length

theorem denotes_plain (plain : 47 ∉ text) : Denotes inetPton text n ↔ inetPton (addressDomain text) text ≠ none ∧ n = 0 := by
  constructor
  · intro denotes
    cases denotes with
    | bare accepted => exact ⟨accepted, rfl⟩
    | netmask _ _ => exact absurd (by simp) plain
  · rintro ⟨accepted, rfl⟩
    exact .bare accepted

theorem strlcpy_short {size : Nat} (short : text.length < size) : strlcpy size text = text := List.take_of_length_le (by omega)

theorem parse_plain (short : text.length < 512) (plain : 47 ∉ text) : lifAddressParse inetPton text =
    (inetPton (addressDomain text) text).map fun addrBuf => ⟨addrBuf, 0, addressDomain text⟩ := by
  unfold lifAddressParse addressDomain
  dsimp only
  rw [strlcpy_short short, strrchr_none plain]

theorem parse_slash (short : (before ++ 47 :: behind).length < 512) (last : 47 ∉ behind) :
    lifAddressParse inetPton (before ++ 47 :: behind) =
      (inetPton (addressDomain (before ++ 47 :: behind)) before).map fun addrBuf =>
        ⟨addrBuf, strtol behind, addressDomain (before ++ 47 :: behind)⟩ := by
  unfold lifAddressParse addressDomain
  dsimp only
  rw [strlcpy_short short, strrchr_last last]

end

/-- A text is taken for the address that it is just if what stands behind its last slash is a prefix length, or no address stands
in front of it. -/
theorem address_checked (inetPton : InetPton) (slash : ∀ domain text, 47 ∈ text → inetPton domain text = none) (text : Str)
    (short : text.length < 512) :
    (∀ n, (lifAddressParse inetPton text).map LifAddress.netmask = some n ↔ Denotes inetPton text n) ↔
      ∀ before behind, text = before ++ 47 :: behind → 47 ∉ behind →
        PrefixLength (addressDomain before) behind ∨ inetPton (addressDomain text) before = none := by
  by_cases present : 47 ∈ text
  · obtain ⟨before, behind, rfl, last⟩ := exists_last present
    have one : (∀ before' behind', before ++ 47 :: behind = before' ++ 47 :: behind' → 47 ∉ behind' →
          PrefixLength (addressDomain before') behind' ∨ inetPton (addressDomain (before ++ 47 :: behind)) before' = none) ↔
        PrefixLength (addressDomain before) behind ∨ inetPton (addressDomain (before ++ 47 :: behind)) before = none := by
      refine ⟨fun all => all before behind rfl last, fun here before' behind' whole last' => ?_⟩
      have found := strrchr_last last before
      rw [whole, strrchr_last last' before'] at found
      cases found
      exact here
    rw [one, parse_slash short last]
    simp only [denotes_slash slash last]
    by_cases length : PrefixLength (addressDomain before) behind
    · rw [length.same_domain, length.strtol]
      cases inetPton (addressDomain before) before with
      | none => simp
      | some bytes => simp [length]
    · cases inetPton (addressDomain (before ++ 47 :: behind)) before with
      | none => simp [length]
      | some bytes => simp [length]
  · rw [parse_plain short present]
    simp only [denotes_plain present]
    refine iff_of_true (fun n => ?_) fun before behind whole => absurd (by simp [whole]) present
    cases inetPton (addressDomain text) text with
    | none => simp
    | some bytes => simp [eq_comm]

theorem onePton_slash (domain : AddrDomain) (text : Str) (present : 47 ∈ text) : onePton domain text = none := by
  refine if_neg fun known => ?_
  rw [known.2] at present
  exact absurd present (by decide)

theorem address_checked_prefix : (lifAddressParse onePton (str "10.0.0.1/16")).map LifAddress.netmask = some 16 ↔
    Denotes onePton (str "10.0.0.1/16") 16 := by
  refine (address_checked onePton onePton_slash (str "10.0.0.1/16") (by decide)).mpr (fun before behind whole last => ?_) 16
  have found := strrchr_last last before
  rw [← whole, show strrchr 47 (str "10.0.0.1/16") = some (str "10.0.0.1", str "16") by decide] at found
  cases found
  exact Or.inl ⟨by decide, by simp [isDigit, str], by decide⟩

theorem address_checked_empty :
    ¬ ∀ (inetPton : InetPton), (∀ domain text, 47 ∈ text → inetPton domain text = none) → ∀ text : Str, text.length < 512 →
      ∀ n, (lifAddressParse inetPton text).map LifAddress.netmask = some n ↔ Denotes inetPton text n := by
  intro claim
  have denotes := (claim onePton onePton_slash (str "10.0.0.1/") (by decide) 0).mp (by decide)
  have split_ : str "10.0.0.1/" = str "10.0.0.1" ++ 47 :: [] := by decide
  rw [split_] at denotes
  exact ((denotes_slash onePton_slash (by simp)).mp denotes).2.1.1 rfl

end Ifupdown
