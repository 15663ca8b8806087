import Ifupdown.Executors.Environment

/-! The addresses and gateways that executors get to see. -/
namespace Ifupdown

section
variable {libc : Libc} {opts : LifExecuteOpts} {iface : LifInterface} {lifname : Option Str} {phase mode : Str} {texts : List Str}
  {name val : Str}

/-- A variable is there with a value that is not cut just if the value is one of its name and short enough. -/
theorem mem_strings (given : (name, val) ∈ environmentVars libc opts iface lifname phase mode) :
    name ++ str "=" ++ val ∈ buildEnvironmentStrings libc opts iface lifname phase mode ↔ (name ++ str "=" ++ val).length ≤ 4095 := by
  rw [strings_vars]
  constructor
  · intro present
    obtain ⟨var, -, same⟩ := List.mem_map.mp present
    rw [← same]
    exact List.length_take_le _ _
  · intro short
    refine List.mem_map.mpr ⟨(name, val), given, ?_⟩
    exact List.take_of_length_le short

theorem cidrs_shown (shown : iface.addresses.map (fun addr => lifAddressFormatCidr libc.inetPton libc.inetNtop iface addr 4096) =
    texts.map some) : iface.cidrs libc = texts := by
  have gathered : iface.cidrs libc =
      iface.addresses.filterMap fun addr => lifAddressFormatCidr libc.inetPton libc.inetNtop iface addr 4096 := by
    unfold LifInterface.cidrs LifInterface.addresses
    rw [List.filterMap_filterMap]
    rfl
  have kept : (texts.map some).filterMap id = texts := by simp
  rw [gathered, ← kept, ← shown, List.filterMap_map]
  rfl

end

/-- Executors see all addresses and gateways just if there is room for them in one string of the environment. -/
theorem lists_seen (libc : Libc) (opts : LifExecuteOpts) (iface : LifInterface) (lifname : Option Str) (phase mode : Str)
    (texts : List Str)
    (shown : iface.addresses.map (fun addr => lifAddressFormatCidr libc.inetPton libc.inetNtop iface addr 4096) = texts.map some) :
    str "IF_ADDRESSES" ++ str "=" ++ spaced texts ∈ buildEnvironmentStrings libc opts iface lifname phase mode ∧
        str "IF_GATEWAYS" ++ str "=" ++ spaced iface.gateways ∈ buildEnvironmentStrings libc opts iface lifname phase mode ↔
      (spaced texts).length ≤ 4082 ∧ (spaced iface.gateways).length ≤ 4083 := by
  have addresses : (str "IF_ADDRESSES", spaced texts) ∈ environmentVars libc opts iface lifname phase mode := by
    unfold environmentVars
    rw [cidrs_shown shown]
    simp
  have gateways : (str "IF_GATEWAYS", spaced iface.gateways) ∈ environmentVars libc opts iface lifname phase mode := by
    unfold environmentVars
    simp
  have name : (str "IF_ADDRESSES" ++ str "=").length = 13 := rfl
  have name' : (str "IF_GATEWAYS" ++ str "=").length = 12 := rfl
  rw [mem_strings addresses, mem_strings gateways, @List.length_append _ (str "IF_ADDRESSES" ++ str "="),
    @List.length_append _ (str "IF_GATEWAYS" ++ str "="), name, name']
  omega

/-- An interface with so many addresses, each with a default netmask, and a gateway. -/
def manyAddresses (n : Nat) : LifInterface :=
  { ifname := str "eth0"
    vars := List.replicate n (str "address", .address ⟨[10, 0, 0, 1], 0, .inet⟩) ++ [(str "gateway", .text (str "10.0.0.254"))] }

theorem lists_seen_two :
    str "IF_ADDRESSES" ++ str "=" ++ str "10.0.0.1/24 10.0.0.1/24 " ∈
        buildEnvironmentStrings oneLibc {} (manyAddresses 2) none (str "up") (str "start") ∧
      str "IF_GATEWAYS" ++ str "=" ++ str "10.0.0.254 " ∈
        buildEnvironmentStrings oneLibc {} (manyAddresses 2) none (str "up") (str "start") :=
  (lists_seen oneLibc {} (manyAddresses 2) none (str "up") (str "start") [str "10.0.0.1/24", str "10.0.0.1/24"] (by decide +kernel)).mpr
    (by decide +kernel)

theorem lists_seen_cut :
    ¬ ∀ (libc : Libc) (opts : LifExecuteOpts) (iface : LifInterface) (lifname : Option Str) (phase mode : Str) (texts : List Str),
      iface.addresses.map (fun addr => lifAddressFormatCidr libc.inetPton libc.inetNtop iface addr 4096) = texts.map some →
      str "IF_ADDRESSES" ++ str "=" ++ spaced texts ∈ buildEnvironmentStrings libc opts iface lifname phase mode ∧
        str "IF_GATEWAYS" ++ str "=" ++ spaced iface.gateways ∈ buildEnvironmentStrings libc opts iface lifname phase mode := by
  intro claim
  have seen := (claim oneLibc {} (manyAddresses 341) none (str "up") (str "start") (List.replicate 341 (str "10.0.0.1/24"))
    (by decide +kernel)).1
  have pushed : (str "IF_ADDRESSES", spaced (List.replicate 341 (str "10.0.0.1/24"))) ∈
      environmentVars oneLibc {} (manyAddresses 341) none (str "up") (str "start") := by decide +kernel
  exact absurd ((mem_strings pushed).mp seen) (by decide +kernel)

end Ifupdown
