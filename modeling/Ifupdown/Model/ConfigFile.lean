import Ifupdown.Base.Decimal
import Ifupdown.Base.Search
import Ifupdown.Model.Edits
import Ifupdown.Model.LineReader

/-! The configuration file, from config-file.c and config-parser.c, and its tokens from tokenize.h. -/
namespace Ifupdown

/-- `struct lif_config_file` with its defaults. The parser and the compatibility glue consult all settings but one. -/
structure LifConfigFile extends LifConfig where
  allowAddonScripts : Bool := true

inductive Setting where
  | allowAddonScripts | allowAnyIfaceAsTemplate | autoExecutorSelection | compatCreateInterfaces
  | compatIfupdown2BridgePortsInheritVlans | implicitTemplateConversion | useHostnameForDhcp
  deriving DecidableEq

def LifConfigFile.get (config : LifConfigFile) : Setting → Bool
  | .allowAddonScripts => config.allowAddonScripts
  | .allowAnyIfaceAsTemplate => config.allowAnyIfaceAsTemplate
  | .autoExecutorSelection => config.autoExecutorSelection
  | .compatCreateInterfaces => config.compatCreateInterfaces
  | .compatIfupdown2BridgePortsInheritVlans => config.compatIfupdown2BridgePortsInheritVlans
  | .implicitTemplateConversion => config.implicitTemplateConversion
  | .useHostnameForDhcp => config.useHostnameForDhcp

def LifConfigFile.set (config : LifConfigFile) (setting : Setting) (value : Bool) : LifConfigFile :=
  match setting with
  | .allowAddonScripts => { config with allowAddonScripts := value }
  | .allowAnyIfaceAsTemplate => { config with allowAnyIfaceAsTemplate := value }
  | .autoExecutorSelection => { config with autoExecutorSelection := value }
  | .compatCreateInterfaces => { config with compatCreateInterfaces := value }
  | .compatIfupdown2BridgePortsInheritVlans => { config with compatIfupdown2BridgePortsInheritVlans := value }
  | .implicitTemplateConversion => { config with implicitTemplateConversion := value }
  | .useHostnameForDhcp => { config with useHostnameForDhcp := value }

/-- What `set_bool_value` takes the first byte of the value for. -/
def boolValue (value : Str) : Option Bool :=
  match value.head? with
  | none => none
  | some c =>
    if c ∈ str "1YyTt" then some true
    else if c ∈ str "0NnFf" then some false
    else none

def setBoolValue (config : LifConfigFile) (setting : Setting) (value : Str) : Option LifConfigFile :=
  (boolValue value).map (config.set setting)

def handlers : List (Str × Setting) := [
  (str "allow_addon_scripts", .allowAddonScripts),
  (str "allow_any_iface_as_template", .allowAnyIfaceAsTemplate),
  (str "auto_executor_selection", .autoExecutorSelection),
  (str "compat_create_interfaces", .compatCreateInterfaces),
  (str "compat_ifupdown2_bridge_ports_inherit_vlans", .compatIfupdown2BridgePortsInheritVlans),
  (str "implicit_template_conversion", .implicitTemplateConversion),
  (str "use_hostname_for_dhcp", .useHostnameForDhcp)]

def isSeparator (c : UInt8) : Bool := isSpace c || c == 61

/-- `lif_next_token_eq(&bufp)`: where the token starts, where `bufp` then points, and the buffer with a NUL behind the token. -/
def lifNextTokenEqAt (buf : Buffer) (bufp : Nat) : Nat × Nat × Buffer :=
  let out := bufp + ((buf.drop bufp).takeWhile isSeparator).length
  let stop := out + ((buf.drop out).takeWhile (fun c => c != 0 && !isSeparator c)).length
  (out, stop + 1, buf.set stop 0)

structure ConfigState where
  config : LifConfigFile := {}
  warnings : List Str := []

/-- What a line says once its key and value are cut. `none` where the handler fails. -/
def handleSetting (filename : Str) (lineno : Nat) (state : ConfigState) (key value : Str) : Option ConfigState :=
  if key = [] ∨ value = [] then some state
  else if key.head? = some 35 then some state
  else
    match bsearch (fun hdl => strcmp key hdl.1) handlers with
    | none =>
      let warning := str "ifupdown-ng: " ++ filename ++ str ":" ++ decimal lineno ++ str ": warning: unknown config setting " ++ key
      some { state with warnings := state.warnings ++ [warning] }
    | some (_, setting) => (setBoolValue state.config setting value).map fun config => { state with config := config }

/-- The loop of `lif_config_parse_file`; every line takes a byte of the file. -/
def configLoop (filename : Str) : Nat → Nat → ConfigState → Buffer → Str → Bool × ConfigState
  | 0, _, state, _, _ => (true, state)
  | fuel + 1, lineno, state, linebuf, fd =>
    match lifFgetline linebuf 4096 fd with
    | (none, _) => (true, state)
    | (some linebuf, fd) =>
      let (key, bufp, linebuf) := lifNextTokenEqAt linebuf 0
      let (value, _, linebuf) := lifNextTokenEqAt linebuf bufp
      match handleSetting filename (lineno + 1) state (strAt linebuf key) (strAt linebuf value) with
      | none => (false, state)
      | some state => configLoop filename fuel (lineno + 1) state linebuf fd

/-- `linebuf` is what the uninitialised line buffer holds at first. -/
def lifConfigParseFile (linebuf : Buffer) (filename : Str) (config : LifConfigFile) (fd : Str) : Bool × ConfigState :=
  configLoop filename (fd.length + 1) 0 { config := config } linebuf fd

def lifConfigLoad (fopen : Str → Option Str) (linebuf : Buffer) (config : LifConfigFile) (filename : Str) : Bool × ConfigState :=
  match fopen filename with
  | none => (false, { config := config })
  | some fd => lifConfigParseFile linebuf filename config fd

end Ifupdown
