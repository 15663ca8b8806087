import Ifupdown.Properties.AddressSyntax

/-! What is printed of an address, and that it is read back. -/
namespace Ifupdown

/-- What `inet_ntop` and `inet_pton` do with an address: the one prints it and the other one reads that back. The text has a colon
just for IPv6, has no slash and fits `INET6_ADDRSTRLEN`. -/
structure Presented (inetPton : InetPton) (inetNtop : InetNtop) (address : LifAddress) (text : Str) : Prop where
  printed : inetNtop address.domain address.addrBuf = some text
  read : inetPton address.domain text = some address.addrBuf
  colon : 58 ∈ text ↔ address.domain = .inet6
  slash : 47 ∉ text
  short : text.length < 46

section
variable {inetPton : InetPton} {inetNtop : InetNtop} {address : LifAddress} {text : Str} {buflen : Nat}

theorem Presented.domain (presented : Presented inetPton inetNtop address text) : addressDomain text = address.domain := by
  unfold addressDomain
  cases domain : address.domain with
  | inet => exact if_neg fun colon => absurd (domain.symm.trans (presented.colon.mp colon)) (by decide)
  | inet6 => exact if_pos (presented.colon.mpr domain)

theorem decimal_short {n : Nat} (small : n ≤ 128) : (decimal n).length ≤ 3 := by
  have digits : ∀ m ≤ 128, (decimal m).length ≤ 3 := by decide +kernel
  exact digits n small

theorem prefix_decimal (domain : AddrDomain) {n : Nat} (small : n ≤ domain.bits) : PrefixLength domain (decimal n) :=
  ⟨decimal_ne_nil n, decimal_digits n, by rwa [digitsValue_decimal]⟩

theorem bits_small (domain : AddrDomain) : domain.bits ≤ 128 := by
  cases domain <;> decide

/-- An address with a prefix length that it may have is read back from what is printed of it. -/
theorem unparse_parse (presented : Presented inetPton inetNtop address text) (small : address.netmask ≤ address.domain.bits)
    (room : 64 ≤ buflen) : ∃ printed, lifAddressUnparse inetNtop address buflen true = some printed ∧
      lifAddressParse inetPton printed = some address := by
  have short := presented.short
  have bits := bits_small address.domain
  unfold lifAddressUnparse
  rw [presented.printed]
  by_cases zero : address.netmask = 0
  · refine ⟨text, ?_, ?_⟩
    · rw [Option.map_some, if_pos (by simp [zero]), strlcpy_short (by omega)]
    · rw [parse_plain (by omega) presented.slash, presented.domain, presented.read, Option.map_some, ← zero]
  · have length := prefix_decimal address.domain small
    have whole : text ++ str "/" ++ decimal address.netmask = text ++ 47 :: decimal address.netmask := by
      rw [List.append_assoc]
      rfl
    have digits := decimal_short (Nat.le_trans small bits)
    have fits : (text ++ 47 :: decimal address.netmask).length < 64 := by
      rw [List.length_append, List.length_cons]
      omega
    refine ⟨text ++ 47 :: decimal address.netmask, ?_, ?_⟩
    · rw [Option.map_some, if_neg (by simp [zero]), whole, strlcpy_short (by omega)]
    · rw [parse_slash (by omega) length.slash, length.same_domain, presented.domain, presented.read, Option.map_some, length.strtol,
        digitsValue_decimal]

/-- The call for an entry is the one for its address, and leaves the address as it has been. -/
theorem formatCidrAt_spec (iface : LifAddress → LifInterface) (addr : LifAddress) (buf : Str) :
    lifAddressFormatCidrAt inetPton inetNtop iface addr buf buflen =
      match lifAddressFormatCidr inetPton inetNtop (iface addr) addr buflen with
      | none => (false, buf, addr)
      | some text => (true, text, addr) := by
  have restored : ({ (if addr.netmask = 0 then { addr with netmask := determineInterfaceNetmask inetPton (iface addr) addr } else addr)
      with netmask := addr.netmask } : LifAddress) = addr := by
    split <;> rfl
  unfold lifAddressFormatCidrAt lifAddressFormatCidr
  dsimp only
  generalize lifAddressUnparse inetNtop _ buflen true = shown
  cases shown with
  | none => exact congrArg (fun addr => (false, buf, addr)) restored
  | some text => exact congrArg (fun addr => (true, text, addr)) restored

end

/-- An address comes back from its text, and printing that of an entry takes its own prefix and leaves it as it is. -/
theorem address_survives (inetPton : InetPton) (inetNtop : InetNtop) :
    (∀ (address : LifAddress) (text : Str) (buflen : Nat), Presented inetPton inetNtop address text →
      address.netmask ≤ address.domain.bits → 64 ≤ buflen →
        ∃ printed, lifAddressUnparse inetNtop address buflen true = some printed ∧ lifAddressParse inetPton printed = some address) ∧
      ∀ (iface : LifAddress → LifInterface) (addr : LifAddress) (buf : Str) (buflen : Nat),
        let (ok, printed, addr') := lifAddressFormatCidrAt inetPton inetNtop iface addr buf buflen
        (addr.netmask ≠ 0 → ∀ text, inetNtop addr.domain addr.addrBuf = some text →
          ok = true ∧ printed = strlcpy buflen (text ++ str "/" ++ decimal addr.netmask)) ∧
        addr' = addr ∧ iface addr' = iface addr := by
  refine ⟨fun address text buflen => unparse_parse, fun iface addr buf buflen => ?_⟩
  rw [formatCidrAt_spec]
  cases shown : lifAddressFormatCidr inetPton inetNtop (iface addr) addr buflen with
  | none =>
    refine ⟨fun given text found => ?_, rfl, rfl⟩
    rw [lifAddressFormatCidr, if_neg given, lifAddressUnparse, found] at shown
    cases shown
  | some printed =>
    refine ⟨fun given text found => ⟨rfl, ?_⟩, rfl, rfl⟩
    rw [lifAddressFormatCidr, if_neg given, lifAddressUnparse, found, Option.map_some, if_neg (by simp [given]),
      Option.some_inj] at shown
    exact shown.symm

theorem address_survives_netmask : ∃ printed, lifAddressUnparse oneNtop ⟨[10, 0, 0, 1], 16, .inet⟩ 64 true = some printed ∧
    lifAddressParse onePton printed = some ⟨[10, 0, 0, 1], 16, .inet⟩ :=
  (address_survives onePton oneNtop).1 ⟨[10, 0, 0, 1], 16, .inet⟩ (str "10.0.0.1") 64
    ⟨by decide, by decide, by decide, by decide, by decide⟩ (by decide) (by decide)

end Ifupdown
