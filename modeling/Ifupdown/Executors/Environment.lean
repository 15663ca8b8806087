import Ifupdown.Model.Environment
import Ifupdown.Model.Rdepends

/-! The environment of an executor as names and values. -/
namespace Ifupdown

def envText (var : Str × Str) : Str := strlcpy 4096 (var.1 ++ str "=" ++ var.2)

def spaced (values : List Str) : Str := values.flatMap fun value => value ++ str " "

/-- The text of an address, where the data is one and it can be printed. -/
def cidrText (libc : Libc) (iface : LifInterface) (data : VarData) : Option Str :=
  data.address?.bind fun addr => lifAddressFormatCidr libc.inetPton libc.inetNtop iface addr 4096

/-- The variables for the entries of an interface, as they are while an address or a gateway has been pushed or not. -/
def entryVars (libc : Libc) (iface : LifInterface) : (didAddress didGateway : Bool) → LifDict VarData → List (Str × Str)
  | _, _, [] => []
  | didAddress, didGateway, (key, data) :: rest =>
    if key = str "address" then
      match cidrText libc iface data with
      | none => entryVars libc iface didAddress didGateway rest
      | some text => (if didAddress then [] else [(str "IF_ADDRESS", text)]) ++ entryVars libc iface true didGateway rest
    else if key = str "gateway" then
      (if didGateway then [] else [(environmentKey key, data.value)]) ++ entryVars libc iface didAddress true rest
    else
      (if key = str "requires" ∧ iface.isBridge = true then [(str "IF_BRIDGE_PORTS", data.value)] else []) ++
        (environmentKey key, data.value) :: entryVars libc iface didAddress didGateway rest

def frontVars (libc : Libc) (opts : LifExecuteOpts) (lifname phase mode : Str) : List (Str × Str) :=
  [(str "PATH", libc.stdpath), (str "IFACE", lifname), (str "PHASE", phase), (str "MODE", mode), (str "METHOD", str "none")] ++
    (if opts.verbose then [(str "VERBOSE", str "1")] else []) ++ (opts.interfacesFile.toList.map fun file => (str "INTERFACES_FILE", file))

def LifInterface.gateways (iface : LifInterface) : List Str := (dataAt iface.vars (str "gateway")).map VarData.value

def LifInterface.cidrs (libc : Libc) (iface : LifInterface) : List Str :=
  (dataAt iface.vars (str "address")).filterMap (cidrText libc iface)

def environmentVars (libc : Libc) (opts : LifExecuteOpts) (iface : LifInterface) (lifname : Option Str) (phase mode : Str) :
    List (Str × Str) :=
  frontVars libc opts (lifname.getD iface.ifname) phase mode ++ entryVars libc iface false false iface.vars ++
    [(str "IF_ADDRESSES", spaced (iface.cidrs libc)), (str "IF_GATEWAYS", spaced iface.gateways)]

section
variable {libc : Libc} {opts : LifExecuteOpts} {iface : LifInterface} {loop : EnvironmentLoop} {entry : Str × VarData}
  {vars : LifDict VarData} {buffer : AllocBuffer} {value : Str}

@[simp] theorem appendToBuffer_text : (appendToBuffer buffer value).text = buffer.text ++ value ++ str " " := rfl

theorem spaced_cons (value : Str) (values : List Str) : spaced (value :: values) = value ++ str " " ++ spaced values :=
  List.flatMap_cons

theorem front_vars {lifname phase mode : Str} : environmentFront libc opts lifname phase mode =
    (frontVars libc opts lifname phase mode).map envText := by
  unfold environmentFront frontVars
  cases opts.verbose <;> cases opts.interfacesFile <;> rfl

theorem step_address (data : VarData) : environmentStep libc iface loop (str "address", data) =
    match cidrText libc iface data with
    | none => loop
    | some text =>
      { loop with
        envp := loop.envp ++ (if loop.didAddress then [] else [(str "IF_ADDRESS", text)]).map envText
        addresses := appendToBuffer loop.addresses text
        didAddress := true } := by
  unfold environmentStep cidrText
  rw [if_pos rfl]
  cases data with
  | text value => rfl
  | address addr =>
    dsimp only [VarData.address?, Option.bind_some]
    cases lifAddressFormatCidr libc.inetPton libc.inetNtop iface addr 4096 with
    | none => rfl
    | some text =>
      obtain ⟨envp, addresses, gateways, didAddress, didGateway⟩ := loop
      cases didAddress
      · rfl
      · simp

theorem step_gateway (data : VarData) : environmentStep libc iface loop (str "gateway", data) =
    { loop with
      envp := loop.envp ++ (if loop.didGateway then [] else [(environmentKey (str "gateway"), data.value)]).map envText
      gateways := appendToBuffer loop.gateways data.value
      didGateway := true } := by
  have other : str "gateway" ≠ str "address" := by decide
  unfold environmentStep
  rw [if_neg other, if_pos rfl]
  obtain ⟨envp, addresses, gateways, didAddress, didGateway⟩ := loop
  cases didGateway
  · rfl
  · simp

theorem step_other {key : Str} (address : key ≠ str "address") (gateway : key ≠ str "gateway") (data : VarData) :
    environmentStep libc iface loop (key, data) =
      { loop with
        envp := loop.envp ++ ((if key = str "requires" ∧ iface.isBridge = true then [(str "IF_BRIDGE_PORTS", data.value)] else []) ++
          [(environmentKey key, data.value)]).map envText } := by
  unfold environmentStep
  rw [if_neg address, if_neg gateway]
  by_cases requires : key = str "requires"
  · cases bridge : iface.isBridge with
    | false => simp [EnvironmentLoop.push, lifEnvironmentPush, envText]
    | true => simp [requires, EnvironmentLoop.push, lifEnvironmentPush, envText]
  · simp [requires, EnvironmentLoop.push, lifEnvironmentPush, envText]

theorem loop_vars : (vars.foldl (environmentStep libc iface) loop).envp =
        loop.envp ++ (entryVars libc iface loop.didAddress loop.didGateway vars).map envText ∧
      (vars.foldl (environmentStep libc iface) loop).addresses.text =
        loop.addresses.text ++ spaced ((dataAt vars (str "address")).filterMap (cidrText libc iface)) ∧
      (vars.foldl (environmentStep libc iface) loop).gateways.text =
        loop.gateways.text ++ spaced ((dataAt vars (str "gateway")).map VarData.value) := by
  induction vars generalizing loop with
  | nil => simp [entryVars, spaced]
  | cons entry rest ih =>
    obtain ⟨key, data⟩ := entry
    obtain ⟨envp, addresses, gateways⟩ := @ih (environmentStep libc iface loop (key, data))
    rw [List.foldl_cons, envp, addresses, gateways, dataAt_cons, dataAt_cons, entryVars]
    by_cases address : key = str "address"
    · have other : str "address" ≠ str "gateway" := by decide
      subst address
      rw [step_address, if_pos rfl, if_pos rfl, if_neg other, List.filterMap_cons]
      cases cidrText libc iface data with
      | none => exact ⟨rfl, rfl, rfl⟩
      | some text => simp [spaced_cons]
    by_cases gateway : key = str "gateway"
    · subst gateway
      rw [step_gateway, if_neg address, if_neg address, if_pos rfl, if_pos rfl]
      simp [spaced_cons]
    · rw [step_other address gateway, if_neg address, if_neg address, if_neg gateway, if_neg gateway]
      simp

theorem strings_vars {lifname : Option Str} {phase mode : Str} : buildEnvironmentStrings libc opts iface lifname phase mode =
    (environmentVars libc opts iface lifname phase mode).map envText := by
  obtain ⟨envp, addresses, gateways⟩ := @loop_vars libc iface
    { envp := environmentFront libc opts (lifname.getD iface.ifname) phase mode } iface.vars
  unfold buildEnvironmentStrings environmentVars
  dsimp only
  rw [envp, addresses, gateways, front_vars]
  simp [lifEnvironmentPush, envText, LifInterface.cidrs, LifInterface.gateways]

/-- As long as no value is longer than the lines of a file can be, the buffers have room for what is written. -/
theorem loop_room (short : ∀ entry ∈ vars, entry.2.value.length < 4096)
    (room : (4096 ≤ loop.addresses.size ∧ loop.addresses.text.length < loop.addresses.size) ∧
      4096 ≤ loop.gateways.size ∧ loop.gateways.text.length < loop.gateways.size) :
    let left := vars.foldl (environmentStep libc iface) loop
    (4096 ≤ left.addresses.size ∧ left.addresses.text.length < left.addresses.size) ∧
      4096 ≤ left.gateways.size ∧ left.gateways.text.length < left.gateways.size := by
  induction vars generalizing loop with
  | nil => exact room
  | cons entry rest ih =>
    obtain ⟨key, data⟩ := entry
    obtain ⟨first, later⟩ := List.forall_mem_cons.mp short
    refine ih later ?_
    by_cases address : key = str "address"
    · subst address
      rw [step_address]
      cases shown : cidrText libc iface data with
      | none => exact room
      | some text =>
        have cut : text.length < 4096 := by
          obtain ⟨addr, -, shown⟩ := Option.bind_eq_some_iff.mp shown
          obtain ⟨work, -, rfl⟩ := Option.map_eq_some_iff.mp shown
          repeat' split
          all_goals exact Nat.lt_succ_of_le (List.length_take_le _ _)
        exact ⟨appendToBuffer_room room.1.1 room.1.2 cut, room.2⟩
    by_cases gateway : key = str "gateway"
    · subst gateway
      rw [step_gateway]
      exact ⟨room.1, appendToBuffer_room room.2.1 room.2.2 first⟩
    · rw [step_other address gateway]
      exact room

end

end Ifupdown
