import Ifupdown.Model.Address
import Ifupdown.Model.Lifecycle

/-! The environment that executors run in, from lifecycle.c and environment.c. -/
namespace Ifupdown

/-- `inet_pton`, `inet_ntop` and `_PATH_STDPATH` of the system. -/
structure Libc where
  inetPton : InetPton
  inetNtop : InetNtop
  stdpath : Str

def lifEnvironmentPush (env : List Str) (name val : Str) : List Str := env ++ [strlcpy 4096 (name ++ str "=" ++ val)]

/-- A string in a buffer that has been allocated with this size. -/
structure AllocBuffer where
  text : Str := []
  size : Nat := 4096

/-- The buffer is taken to grow when it has to. -/
def appendToBuffer (buffer : AllocBuffer) (value : Str) : AllocBuffer :=
  { text := buffer.text ++ value ++ str " "
    size := if buffer.size < buffer.text.length + value.length + 2 then buffer.size * 2 else buffer.size }

def toUpper (c : UInt8) : UInt8 := if 97 ≤ c && c ≤ 122 then c - 32 else c

def environmentKey (key : Str) : Str :=
  let envkey := strlcat 4096 (str "IF_") key
  envkey.take 3 ++ (envkey.drop 3).map fun c => if toUpper c = 45 then 95 else toUpper c

structure EnvironmentLoop where
  envp : List Str
  addresses : AllocBuffer := {}
  gateways : AllocBuffer := {}
  didAddress : Bool := false
  didGateway : Bool := false

def EnvironmentLoop.push (loop : EnvironmentLoop) (name val : Str) : EnvironmentLoop :=
  { loop with envp := lifEnvironmentPush loop.envp name val }

def environmentStep (libc : Libc) (iface : LifInterface) (loop : EnvironmentLoop) (entry : Str × VarData) : EnvironmentLoop :=
  if entry.1 = str "address" then
    match entry.2 with
    | .text _ => loop
    | .address addr =>
      match lifAddressFormatCidr libc.inetPton libc.inetNtop iface addr 4096 with
      | none => loop
      | some addrbuf =>
        let loop := { loop with addresses := appendToBuffer loop.addresses addrbuf }
        if loop.didAddress then loop
        else { loop.push (str "IF_ADDRESS") addrbuf with didAddress := true }
  else if entry.1 = str "gateway" then
    let loop := { loop with gateways := appendToBuffer loop.gateways entry.2.value }
    if loop.didGateway then loop
    else { loop with didGateway := true }.push (environmentKey entry.1) entry.2.value
  else
    let loop :=
      if entry.1 = str "requires" then
        if iface.isBridge then loop.push (str "IF_BRIDGE_PORTS") entry.2.value else loop
      else loop
    loop.push (environmentKey entry.1) entry.2.value

def environmentFront (libc : Libc) (opts : LifExecuteOpts) (lifname phase mode : Str) : List Str :=
  let envp := lifEnvironmentPush [] (str "PATH") libc.stdpath
  let envp := lifEnvironmentPush envp (str "IFACE") lifname
  let envp := lifEnvironmentPush envp (str "PHASE") phase
  let envp := lifEnvironmentPush envp (str "MODE") mode
  let envp := lifEnvironmentPush envp (str "METHOD") (str "none")
  let envp := if opts.verbose then lifEnvironmentPush envp (str "VERBOSE") (str "1") else envp
  match opts.interfacesFile with
  | none => envp
  | some interfacesFile => lifEnvironmentPush envp (str "INTERFACES_FILE") interfacesFile

/-- The strings that `build_environment` leaves in `envp`. -/
def buildEnvironmentStrings (libc : Libc) (opts : LifExecuteOpts) (iface : LifInterface) (lifname : Option Str) (phase mode : Str) :
    List Str :=
  let loop := iface.vars.foldl (environmentStep libc iface)
    { envp := environmentFront libc opts (lifname.getD iface.ifname) phase mode }
  let envp := lifEnvironmentPush loop.envp (str "IF_ADDRESSES") loop.addresses.text
  lifEnvironmentPush envp (str "IF_GATEWAYS") loop.gateways.text

section
variable {buffer : AllocBuffer} {value : Str}

/-- A value that is shorter than the first allocation never runs over the end of the buffer. -/
theorem appendToBuffer_room (room : 4096 ≤ buffer.size) (fits : buffer.text.length < buffer.size) (short : value.length < 4096) :
    4096 ≤ (appendToBuffer buffer value).size ∧ (appendToBuffer buffer value).text.length < (appendToBuffer buffer value).size := by
  have blank : (str " ").length = 1 := rfl
  unfold appendToBuffer
  dsimp only
  rw [List.length_append, List.length_append, blank]
  split <;> omega

end

def oneLibc : Libc := ⟨onePton, oneNtop, str "/usr/bin:/bin:/usr/sbin:/sbin"⟩

end Ifupdown
