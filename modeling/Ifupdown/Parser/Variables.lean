import Ifupdown.Parser.Inheritance

/-! What the edits do to the variables of one key. -/
namespace Ifupdown

theorem dataAt_addOnce [DecidableEq α] {dict : LifDict α} {key other : Str} {data : α} :
    dataAt (lifDictAddOnce dict key data) other =
      dataAt dict other ++ if key = other ∧ (key, data) ∉ dict then [data] else [] := by
  unfold lifDictAddOnce
  split
  · rename_i present
    simp [present]
  · rename_i absent
    rw [dataAt_add]
    simp [absent]

section
variable {host : Host} {iface : LifInterface} {key : Str}

theorem useExecutor_data (hostname : Option Str) (executor : Str) (other : key ≠ str "use") :
    dataAt (lifInterfaceUseExecutor hostname iface executor).vars key = dataAt iface.vars key ++
      if key = str "dhcp-hostname" ∧ executor = str "dhcp" then hostname.toList.map .text else [] := by
  unfold lifInterfaceUseExecutor
  cases hostname with
  | none => simp [dataAt_addOnce, other.symm]
  | some nodename =>
    by_cases dhcp : executor = str "dhcp"
    · simp [dhcp, dataAt_add, dataAt_addOnce, other.symm, eq_comm]
    · simp [dhcp, dataAt_addOnce, other.symm]

theorem addressAdd_data (inetPton : InetPton) (address : Str) (other : key ≠ str "use") :
    dataAt (lifInterfaceAddressAdd inetPton iface address).vars key = dataAt iface.vars key ++
      if key = str "address" then (lifAddressParse inetPton address).toList.map .address else [] := by
  unfold lifInterfaceAddressAdd
  cases lifAddressParse inetPton address with
  | none => simp
  | some addr => simp [dataAt_add, useExecutor_data none _ other, eq_comm]

theorem finalize_data (inetPton : InetPton) :
    dataAt (lifInterfaceFinalize inetPton iface).vars key =
      if key = str "address" then (dataAt iface.vars key).map (finalizeAddress inetPton iface)
      else if key = str "netmask" then (dataAt iface.vars key).tail
      else dataAt iface.vars key := by
  have mapped (vars : LifDict VarData) : dataAt (vars.map fun entry =>
      if entry.1 = str "address" then (entry.1, finalizeAddress inetPton iface entry.2) else entry) key =
        if key = str "address" then (dataAt vars key).map (finalizeAddress inetPton iface) else dataAt vars key := by
    induction vars with
    | nil => simp
    | cons entry rest ih =>
      obtain ⟨name, data⟩ := entry
      rw [List.map_cons, dataAt_cons, ih, dataAt_cons]
      by_cases address : name = str "address"
      · by_cases same : key = str "address"
        · simp [address, same]
        · simp [address, same, Ne.symm same]
      · by_cases same : name = key
        · simp [← same, address]
        · simp [address, same]
  unfold lifInterfaceFinalize
  rw [dataAt_delete, mapped]
  by_cases address : key = str "address"
  · simp [address, show str "netmask" ≠ str "address" by decide]
  · simp [address, eq_comm]

end

end Ifupdown
