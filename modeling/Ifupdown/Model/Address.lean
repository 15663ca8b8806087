import Ifupdown.Base.Decimal
import Ifupdown.Model.Interface

/-! Parsing addresses and netmasks, and what interface.c does to the variables of an interface with them. -/
namespace Ifupdown

/-- What stands before and behind the place that `strrchr` finds. -/
def strrchr (c : UInt8) : Str → Option (Str × Str)
  | [] => none
  | d :: rest =>
    match strrchr c rest with
    | some (before, behind) => some (d :: before, behind)
    | none => if d = c then some ([], rest) else none

/-- The bytes that `inet_pton` writes if it accepts the text. -/
abbrev InetPton := AddrDomain → Str → Option (List UInt8)

variable (inetPton : InetPton)

def lifAddressParse (presentation : Str) : Option LifAddress :=
  let buf := strlcpy 512 presentation
  let domain := if 58 ∈ buf then AddrDomain.inet6 else .inet
  let (text, netmask) := match strrchr 47 buf with
    | some (before, behind) => (before, strtol behind)
    | none => (buf, 0)
  (inetPton domain text).map fun addrBuf => ⟨addrBuf, netmask, domain⟩

/-- `for (bits = ~bits, r = 32; bits; bits >>= 1, r--)`, where `r` is of type `size_t`. -/
def shiftOut : Nat → Nat → Nat → Nat
  | 0, _, r => r
  | fuel + 1, bits, r => if bits = 0 then r else shiftOut fuel (bits / 2) ((r + 2 ^ 64 - 1) % 2 ^ 64)

def countSetBits (netmask : Str) : Nat :=
  if 46 ∈ netmask then
    match inetPton .inet netmask with
    | none => 0
    | some bytes =>
      let bits := bytes.foldl (fun n c => 256 * n + c.toNat) 0
      -- 32 shifts leave no bit of an `unsigned int`
      shiftOut 33 (2 ^ 32 - 1 - bits) 32
  else strtol netmask

def determineInterfaceNetmask (iface : LifInterface) (addr : LifAddress) : Nat :=
  match lifDictFind iface.vars (str "netmask") with
  | some netmask => countSetBits inetPton netmask.value
  | none => match addr.domain with
    | .inet6 => 64
    | .inet => 24

abbrev InetNtop := AddrDomain → List UInt8 → Option Str

def lifAddressUnparse (inetNtop : InetNtop) (address : LifAddress) (buflen : Nat) (withNetmask : Bool) : Option Str :=
  (inetNtop address.domain address.addrBuf).map fun workbuf =>
    if !withNetmask || address.netmask == 0 then strlcpy buflen workbuf
    else strlcpy buflen (workbuf ++ str "/" ++ decimal address.netmask)

/-- The netmask that is set for the call is reset behind it. -/
def lifAddressFormatCidr (inetNtop : InetNtop) (iface : LifInterface) (addr : LifAddress) (buflen : Nat) : Option Str :=
  lifAddressUnparse inetNtop
    (if addr.netmask = 0 then { addr with netmask := determineInterfaceNetmask inetPton iface addr } else addr) buflen true

/-- `lif_address_format_cidr` with the `struct lif_address` of the entry as it is before and after the call. The interface
is the one that has this address in the entry, where the entry is its own. -/
def lifAddressFormatCidrAt (inetNtop : InetNtop) (iface : LifAddress → LifInterface) (addr : LifAddress) (buf : Str) (buflen : Nat) :
    Bool × Str × LifAddress :=
  let origNetmask := addr.netmask
  let addr := if addr.netmask = 0 then { addr with netmask := determineInterfaceNetmask inetPton (iface addr) addr } else addr
  match lifAddressUnparse inetNtop addr buflen true with
  | none => (false, buf, { addr with netmask := origNetmask })
  | some text => (true, text, { addr with netmask := origNetmask })

def lifInterfaceAddressAdd (interface : LifInterface) (address : Str) : LifInterface :=
  match lifAddressParse inetPton address with
  | none => interface
  | some addr =>
    let interface := lifInterfaceUseExecutor none interface (str "static")
    { interface with vars := lifDictAdd interface.vars (str "address") (.address addr) }

def finalizeAddress (interface : LifInterface) : VarData → VarData
  | .address addr =>
    if addr.netmask = 0 then .address { addr with netmask := determineInterfaceNetmask inetPton interface addr }
    else .address addr
  | .text value => .text value

def lifInterfaceFinalize (interface : LifInterface) : LifInterface :=
  let vars := interface.vars.map fun entry =>
    if entry.1 = str "address" then (entry.1, finalizeAddress inetPton interface entry.2) else entry
  { interface with vars := lifDictDelete vars (str "netmask") }

section
variable {c : UInt8} {s before behind : Str}

theorem strrchr_none (absent : c ∉ s) : strrchr c s = none := by
  induction s with
  | nil => rfl
  | cons d rest ih =>
    obtain ⟨other, absent⟩ := not_or.mp (fun h => absent (List.mem_cons.mpr h))
    rw [strrchr, ih absent, if_neg (Ne.symm other)]

theorem strrchr_last (absent : c ∉ behind) (before : Str) : strrchr c (before ++ c :: behind) = some (before, behind) := by
  induction before with
  | nil => rw [List.nil_append, strrchr, strrchr_none absent, if_pos rfl]
  | cons d before ih => rw [List.cons_append, strrchr, ih]

theorem exists_last (present : c ∈ s) : ∃ before behind, s = before ++ c :: behind ∧ c ∉ behind := by
  obtain ⟨behind, before, same, absent⟩ := List.eq_append_cons_of_mem (List.mem_reverse.mpr present)
  refine ⟨before.reverse, behind.reverse, ?_, fun member => absent (List.mem_reverse.mp member)⟩
  rw [← List.reverse_reverse s, same, List.reverse_append, List.reverse_cons, List.append_assoc, List.singleton_append]

end

@[simp] theorem lifInterfaceUseExecutor_ifname (hostname : Option Str) (interface : LifInterface) (executor : Str) :
    (lifInterfaceUseExecutor hostname interface executor).ifname = interface.ifname := by
  obtain ⟨_, _, _, same⟩ := lifInterfaceUseExecutor_frame hostname interface executor
  rw [same]

theorem lifInterfaceAddressAdd_frame (interface : LifInterface) (address : Str) :
    ∃ vars isBridge isBond, lifInterfaceAddressAdd inetPton interface address =
      { interface with vars := vars, isBridge := isBridge, isBond := isBond } := by
  unfold lifInterfaceAddressAdd
  split
  · exact ⟨_, _, _, rfl⟩
  · obtain ⟨_, _, _, same⟩ := lifInterfaceUseExecutor_frame none interface (str "static")
    rw [same]
    exact ⟨_, _, _, rfl⟩

@[simp] theorem lifInterfaceAddressAdd_ifname (interface : LifInterface) (address : Str) :
    (lifInterfaceAddressAdd inetPton interface address).ifname = interface.ifname := by
  obtain ⟨_, _, _, same⟩ := lifInterfaceAddressAdd_frame inetPton interface address
  rw [same]

def VarData.address? : VarData → Option LifAddress
  | .text _ => none
  | .address addr => some addr

def LifInterface.addresses (iface : LifInterface) : List LifAddress :=
  (dataAt iface.vars (str "address")).filterMap VarData.address?

def LifInterface.netmasks (iface : LifInterface) : List Str := (dataAt iface.vars (str "netmask")).map VarData.value

def onePton : InetPton := fun domain text => if domain = .inet ∧ text = str "10.0.0.1" then some [10, 0, 0, 1] else none

def oneNtop : InetNtop := fun domain addr => if domain = .inet ∧ addr = [10, 0, 0, 1] then some (str "10.0.0.1") else none

end Ifupdown
