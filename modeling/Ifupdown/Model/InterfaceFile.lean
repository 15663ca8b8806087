import Ifupdown.Base.Search
import Ifupdown.Model.Edits
import Ifupdown.Model.LineReader

/-! The parser of interface-file.c. -/
namespace Ifupdown

/-- Each token and its alternative, in the order of interface-file.c. -/
def tokens : List (Str × Str) := [
  (str "accept_ra", str "ipv6-accept-ra"),
  (str "autoconf", str "ipv6-autoconf"),
  (str "bond-ad-sys-priority", str "bond-ad-actor-sys-prio"),
  (str "bond-slaves", str "bond-members"),
  (str "client", str "dhcp-client-id"),
  (str "dad_transmits", str "ipv6-dad-transmits"),
  (str "driver-message-level", str "ethtool-msglvl"),
  (str "endpoint", str "tunnel-remote"),
  (str "ethernet-autoneg", str "ethtool-ethernet-autoneg"),
  (str "ethernet-pause-autoneg", str "ethtool-pause-autoneg"),
  (str "ethernet-pause-rx", str "ethtool-pause-rx"),
  (str "ethernet-pause-tx", str "ethtool-pause-tx"),
  (str "ethernet-port", str "ethtool-ethernet-port"),
  (str "ethernet-wol", str "ethtool-ethernet-wol"),
  (str "gro-offload", str "ethtool-offload-gro"),
  (str "gso-offload", str "ethtool-offload-gso"),
  (str "hardware-dma-ring-rx", str "ethtool-dma-ring-rx"),
  (str "hardware-dma-ring-rx-jumbo", str "ethtool-dma-ring-rx-jumbo"),
  (str "hardware-dma-ring-rx-mini", str "ethtool-dma-ring-rx-mini"),
  (str "hardware-dma-ring-tx", str "ethtool-dma-ring-tx"),
  (str "hardware-irq-coalesce-adaptive-rx", str "ethtool-coalesce-adaptive-rx"),
  (str "hardware-irq-coalesce-adaptive-tx", str "ethtool-coalesce-adaptive-tx"),
  (str "hardware-irq-coalesce-pkt-rate-high", str "ethtool-coalesce-pkt-rate-high"),
  (str "hardware-irq-coalesce-pkt-rate-low", str "ethtool-coalesce-pkt-rate-low"),
  (str "hardware-irq-coalesce-rx-frames", str "ethtool-coalesce-rx-frames"),
  (str "hardware-irq-coalesce-rx-frames-high", str "ethtool-coalesce-rx-frames-high"),
  (str "hardware-irq-coalesce-rx-frames-irq", str "ethtool-coalesce-rx-frames-irq"),
  (str "hardware-irq-coalesce-rx-frames-low", str "ethtool-coalesce-rx-frames-low"),
  (str "hardware-irq-coalesce-rx-usecs", str "ethtool-coalesce-rx-usecs"),
  (str "hardware-irq-coalesce-rx-usecs-high", str "ethtool-coalesce-rx-usecs-high"),
  (str "hardware-irq-coalesce-rx-usecs-irq", str "ethtool-coalesce-rx-usecs-irq"),
  (str "hardware-irq-coalesce-rx-usecs-low", str "ethtool-coalesce-rx-usecs-low"),
  (str "hardware-irq-coalesce-sample-interval", str "ethtool-coalesce-sample-interval"),
  (str "hardware-irq-coalesce-stats-block-usecs", str "ethtool-coalesce-stats-block-usecs"),
  (str "hardware-irq-coalesce-tx-frames", str "ethtool-coalesce-tx-frames"),
  (str "hardware-irq-coalesce-tx-frames-high", str "ethtool-coalesce-tx-frames-high"),
  (str "hardware-irq-coalesce-tx-frames-irq", str "ethtool-coalesce-tx-frames-irq"),
  (str "hardware-irq-coalesce-tx-frames-low", str "ethtool-coalesce-tx-frames-low"),
  (str "hardware-irq-coalesce-tx-usecs", str "ethtool-coalesce-tx-usecs"),
  (str "hardware-irq-coalesce-tx-usecs-high", str "ethtool-coalesce-tx-usecs-high"),
  (str "hardware-irq-coalesce-tx-usecs-irq", str "ethtool-coalesce-tx-usecs-irq"),
  (str "hardware-irq-coalesce-tx-usecs-low", str "ethtool-coalesce-tx-usecs-low"),
  (str "hostname", str "dhcp-hostname"),
  (str "key", str "tunnel-key"),
  (str "leasetime", str "dhcp-leasetime"),
  (str "link-autoneg", str "ethtool-ethernet-autoneg"),
  (str "link-duplex", str "ethtool-link-duplex"),
  (str "link-fec", str "ethtool-link-fec"),
  (str "link-speed", str "ethtool-link-speed"),
  (str "local", str "tunnel-local"),
  (str "lro-offload", str "ethtool-offload-lro"),
  (str "mode", str "tunnel-mode"),
  (str "offload-gro", str "ethtool-offload-gro"),
  (str "offload-gso", str "ethtool-offload-gso"),
  (str "offload-lro", str "ethtool-offload-lro"),
  (str "offload-rx", str "ethtool-offload-rx"),
  (str "offload-sg", str "ethtool-offload-sg"),
  (str "offload-tso", str "ethtool-offload-tso"),
  (str "offload-tx", str "ethtool-offload-tx"),
  (str "offload-ufo", str "ethtool-offload-ufo"),
  (str "pointopoint", str "point-to-point"),
  (str "provider", str "ppp-provider"),
  (str "script", str "dhcp-script"),
  (str "rx-offload", str "ethtool-offload-rx"),
  (str "tso-offload", str "ethtool-offload-tso"),
  (str "ttl", str "tunnel-ttl"),
  (str "tunnel-endpoint", str "tunnel-remote"),
  (str "tunnel-physdev", str "tunnel-dev"),
  (str "tx-offload", str "ethtool-offload-tx"),
  (str "ufo-offload", str "ethtool-offload-ufo"),
  (str "vendor", str "dhcp-vendor"),
  (str "vrf", str "vrf-member"),
  (str "vrrp", str "vrrp-cfg"),
  (str "vxlan-local-tunnelip", str "vxlan-local-ip"),
  (str "vxlan-remote-group", str "vxlan-peer-group"),
  (str "vxlan-remoteip", str "vxlan-peer-ips"),
  (str "vxlan-remote-ip", str "vxlan-peer-ips"),
  (str "vxlan-svcnodeip", str "vxlan-peer-group")]

def maybeRemapToken (token : Str) : Str :=
  strlcpy 4096 (match bsearch (fun entry => strcmp token entry.1) tokens with
    | some (_, alternative) => alternative
    | none => token)

/-- `lif_interface_file_parse_state`, with the line buffer of the file that is being read, the lines written to
the standard error, and the edits that have led to the collection. -/
structure ParseState where
  curIface : Option Str := none
  collection : Collection := lifInterfaceCollectionInit
  curFilename : Str := []
  curLineno : Nat := 0
  loaded : LifDict Unit := []
  linebuf : Buffer := []
  errors : List Str := []
  edits : List Edit := []

def ParseState.find (state : ParseState) (ifname : Str) : ParseState :=
  { state with
    collection := (lifInterfaceCollectionFind state.collection ifname).2
    edits := state.edits ++ [.find ifname] }

def ParseState.change (state : ParseState) (host : Host) (ifname : Str) (step : Change) : ParseState :=
  { state with
    collection := state.collection.write ifname (fun iface => step.apply host iface)
      (fun iface => step.apply_ifname host iface)
    edits := state.edits ++ [.change ifname step] }

def ParseState.inherit (state : ParseState) (host : Host) (ifname parent : Str) : Option ParseState :=
  (lifInterfaceCollectionInherit host.config state.collection ifname parent).map fun collection =>
    { state with collection := collection, edits := state.edits ++ [.inherit ifname parent] }

/-- The token, where `bufp` then points, and the buffer with a NUL behind the token. -/
def ParseState.nextToken (state : ParseState) (bufp : Nat) : Str × Nat × ParseState :=
  let (out, bufp, linebuf) := lifNextTokenAt state.linebuf bufp
  (strAt linebuf out, bufp, { state with linebuf := linebuf })

def reportError (state : ParseState) (err : Str) : ParseState :=
  let line := state.curFilename ++ str ":" ++ decimal state.curLineno ++ str ": " ++ strlcpy 4096 err
  { state with errors := state.errors ++ [line] }

def withoutInterface (token arg : Str) : Str := token ++ str " '" ++ arg ++ str "' without interface"

def ParseState.finalize (state : ParseState) (host : Host) : ParseState :=
  match state.curIface with
  | none => state
  | some ifname => state.change host ifname .finalize

variable (host : Host)

/-! Memory does not run out, and so most handlers only return true. These give the new state alone. -/

def handleAddress (state : ParseState) (token : Str) (bufp : Nat) : ParseState :=
  let (addr, _, state) := state.nextToken bufp
  match state.curIface with
  | none => reportError state (withoutInterface token addr)
  | some ifname => state.change host ifname (.addressAdd addr)

def handleAuto (state : ParseState) (bufp : Nat) : ParseState :=
  let (ifname, _, state) := state.nextToken bufp
  if ifname = [] ∧ state.curIface = none then reportError state (str "auto without interface")
  else { state.find ifname with curIface := some ifname }.change host ifname .markAuto

def handleGateway (state : ParseState) (token : Str) (bufp : Nat) : ParseState :=
  let (addr, _, state) := state.nextToken bufp
  match state.curIface with
  | none => reportError state (withoutInterface token addr)
  | some ifname => (state.change host ifname (.useExecutor (str "static"))).change host ifname (.dictAdd token addr)

def handleGeneric (state : ParseState) (token : Str) (bufp : Nat) : ParseState :=
  match state.curIface with
  | none => state
  | some ifname =>
    let token := maybeRemapToken token
    let bufp := bufp + ((state.linebuf.drop bufp).takeWhile isSpace).length
    let state := state.change host ifname (.triple token (strAt state.linebuf bufp))
    if !host.config.autoExecutorSelection then state
    else if 45 ∈ token then state.change host ifname (.useExecutor (token.takeWhile fun c => c != 45))
    else state

def handleHostname (state : ParseState) (token : Str) (bufp : Nat) : ParseState :=
  let (hostname, _, state) := state.nextToken bufp
  match state.curIface with
  | none => reportError state (withoutInterface token hostname)
  | some ifname =>
    (state.change host ifname (.dictDelete (str "dhcp-hostname"))).change host ifname
      (.dictAdd (str "dhcp-hostname") hostname)

def handleUse (state : ParseState) (token : Str) (bufp : Nat) : ParseState :=
  let (executor, _, state) := state.nextToken bufp
  match state.curIface with
  | none => reportError state (withoutInterface token executor)
  | some ifname => state.change host ifname (.useExecutor executor)

/-- `none` where the inheritance does not end. -/
def handleInherit (state : ParseState) (token : Str) (bufp : Nat) : Option ParseState :=
  let (target, _, state) := state.nextToken bufp
  match state.curIface with
  | none => some (reportError state (withoutInterface token target))
  | some ifname =>
    if target = [] then
      some ((reportError state (str "iface " ++ ifname ++ str ": unspecified inherit target")).change host ifname
        .configError)
    else
      let state := state.find target
      if !host.config.allowAnyIfaceAsTemplate && !(state.collection.iface target).isTemplate then
        some ((reportError state (str "iface " ++ ifname ++ str ": could not inherit from " ++ target ++
          str "s: inheritence from non-template interface not allowed")).change host ifname .configError)
      else state.inherit host ifname target

/-- The loop of `handle_iface` over the hints behind the name. `none` where an inheritance does not end. -/
def hintLoop (ifname : Str) : Nat → ParseState → Nat → Option ParseState
  | 0, _, _ => none
  | fuel + 1, state, bufp =>
    let (token, bufp, state) := state.nextToken bufp
    if token = [] then some state
    else if token = str "dhcp" ∨ token = str "ppp" then
      hintLoop ifname fuel (state.change host ifname (.useExecutor token)) bufp
    else if token = str "inherits" then
      -- the pointer is passed by value: the target is read once more as a hint
      match handleInherit host state token bufp with
      | none => none
      | some state => hintLoop ifname fuel state bufp
    else if token = str "no-defaults" then hintLoop ifname fuel (state.change host ifname .noDefaults) bufp
    else hintLoop ifname fuel state bufp

def handleIface (state : ParseState) (token : Str) (bufp : Nat) : Option ParseState :=
  let (ifname, bufp, state) :=
    if token = str "defaults" then (str "defaults", bufp, state) else state.nextToken bufp
  if ifname = [] then some (reportError state (token ++ str " without any other tokens"))
  else
    let state := { (state.finalize host).find ifname with curIface := some ifname }
    let state := if token = str "template" ∨ token = str "defaults" then state.change host ifname .markTemplate
      else state
    match hintLoop host ifname (state.linebuf.length + 1) state bufp with
    | none => none
    | some state =>
      let iface := state.collection.iface ifname
      if !iface.isTemplate && !iface.noDefaults then
        (state.find (str "defaults")).inherit host ifname (str "defaults")
      else some state

variable (parse : ParseState → Str → Option (Bool × ParseState))

def sourceLoop : List Str → Bool → ParseState → Option (Bool × ParseState)
  | [], ok, state => some (ok, state)
  | m :: rest, ok, state =>
    match parse state m with
    | none => none
    | some (parsed, state) => sourceLoop rest (ok && parsed) state

def handleSource (state : ParseState) (bufp : Nat) : Option (Bool × ParseState) :=
  let (sourceFilename, _, state) := state.nextToken bufp
  if sourceFilename = [] then some (true, reportError state (str "missing filename to source"))
  else
    match host.wordexp sourceFilename with
    | none => some (false, reportError state (str "matching pattern failed"))
    | some [] => some (true, state)
    | some (m :: rest) => if host.exists_ m then sourceLoop parse (m :: rest) true state else some (true, state)

def directoryLoop (sourceDirectory : Str) : List Str → ParseState → Option (Bool × ParseState)
  | [], state => some (true, state)
  | name :: rest, state =>
    let pathbuf := strlcpy 4096 (sourceDirectory ++ str "/" ++ name)
    if host.isReg pathbuf then
      match parse state pathbuf with
      | none => none
      | some (false, state) => some (false, state)
      | some (true, state) => directoryLoop sourceDirectory rest state
    else directoryLoop sourceDirectory rest state

def handleSourceDirectory (state : ParseState) (bufp : Nat) : Option (Bool × ParseState) :=
  let (sourceDirectory, _, state) := state.nextToken bufp
  if sourceDirectory = [] then some (true, reportError state (str "missing directory to source"))
  else
    match host.opendir sourceDirectory with
    | .error reason =>
      some (true, reportError state (str "while opening directory " ++ sourceDirectory ++ str ": " ++ reason))
    | .ok names => directoryLoop host parse sourceDirectory names state

inductive Keyword where
  | address | auto | iface | hostname | gateway | inherit | source | sourceDirectory | use
  deriving DecidableEq

def keywords : List (Str × Keyword) := [
  (str "address", .address),
  (str "auto", .auto),
  (str "defaults", .iface),
  (str "dhcp-hostname", .hostname),
  (str "gateway", .gateway),
  (str "hostname", .hostname),
  (str "iface", .iface),
  (str "inherit", .inherit),
  (str "interface", .iface),
  (str "source", .source),
  (str "source-directory", .sourceDirectory),
  (str "template", .iface),
  (str "use", .use)]

def Keyword.handle (state : ParseState) (token : Str) (bufp : Nat) : Keyword → Option (Bool × ParseState)
  | .address => some (true, handleAddress host state token bufp)
  | .auto => some (true, handleAuto host state bufp)
  | .iface => (handleIface host state token bufp).map fun state => (true, state)
  | .hostname => some (true, handleHostname host state token bufp)
  | .gateway => some (true, handleGateway host state token bufp)
  | .inherit => (handleInherit host state token bufp).map fun state => (true, state)
  | .source => handleSource host parse state bufp
  | .sourceDirectory => handleSourceDirectory host parse state bufp
  | .use => some (true, handleUse host state token bufp)

def isAlpha (c : UInt8) : Bool := (65 ≤ c && c ≤ 90) || (97 ≤ c && c ≤ 122)

/-- One round of the loop of `lif_interface_file_parse`, once the line is in the buffer. -/
def handleLine (state : ParseState) : Option (Bool × ParseState) :=
  let (token, bufp, state) := state.nextToken 0
  if !token.head?.any isAlpha then some (true, state)
  else
    match bsearch (fun entry => strcmp token entry.1) keywords with
    | some (_, parserkw) => parserkw.handle host parse state token bufp
    | none => some (true, handleGeneric host state token bufp)

/-- The loop over the lines of a file; every line takes a byte of the stream. -/
def lineLoop (line : ParseState → Option (Bool × ParseState)) : Nat → Str → ParseState → Option (Bool × ParseState)
  | 0, _, _ => none
  | fuel + 1, stream, state =>
    match lifFgetline state.linebuf 4096 stream with
    | (none, _) => some (true, state)
    | (some linebuf, stream) =>
      match line { state with linebuf := linebuf, curLineno := state.curLineno + 1 } with
      | none => none
      | some (false, state) => some (false, state)
      | some (true, state) => lineLoop line fuel stream state

def ParseState.leave (state old : ParseState) : ParseState :=
  { state with curFilename := old.curFilename, curLineno := old.curLineno, linebuf := old.linebuf }

/-- The fuel bounds how deep files include each other. -/
def lifInterfaceFileParse : Nat → ParseState → Str → Option (Bool × ParseState)
  | 0, _, _ => none
  | fuel + 1, state, filename =>
    if (lifDictFind state.loaded filename).isSome then
      some (true, reportError state (str "skipping already included file " ++ filename))
    else
      match host.fopen filename with
      | none => some (false, state)
      | some f =>
        let opened := { state with
          curFilename := filename
          curLineno := 0
          loaded := lifDictAdd state.loaded filename ()
          linebuf := host.stack filename }
        match lineLoop (handleLine host (lifInterfaceFileParse fuel)) (f.length + 1) f opened with
        | none => none
        | some (false, last) => some (false, last.leave state)
        | some (true, last) => some (true, (last.finalize host).leave state)

end Ifupdown
