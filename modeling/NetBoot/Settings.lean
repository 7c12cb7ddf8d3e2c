-- The settings: fourteen keys with their values, read from lines of text and then from the
-- environment.
import NetBoot.Net.Ipv4
import NetBoot.Storage.Volume
import NetBoot.Text.Blank

namespace NetBoot

structure Settings where
  /-- The address and the port to listen on. -/
  bindAddress : Ipv4 := Ipv4.unspecified
  bindPort : UInt16 := 4011
  /-- The ports of clients. EFI firmware has its own. -/
  outPort : UInt16 := 68
  efiOutPort : UInt16 := 4011
  /-- The network interface to listen on, where it is not all of them. -/
  interface : Option String := none
  apiHost : String := "10.1.1.1"
  apiPort : UInt16 := 80
  /-- The address that replies name as the server to load from. -/
  gateway : Ipv4 := ⟨10, 1, 1, 1⟩
  /-- Whether to ask first if a boot file is warranted. -/
  checkFirst : Bool := true
  /-- The user class of our own boot loader. -/
  userClass : String := "MonoRail"
  dataFolder : String := "/var/lib/pxe-proxy"
  leaseFile : String := "/var/lib/dhcp/dhcpd.leases"
  leasePollSeconds : UInt64 := 5
  logFilter : String := "info"
deriving DecidableEq, Repr, Inhabited

inductive Setting where
  | bindAddress
  | bindPort
  | outPort
  | efiOutPort
  | interface
  | apiHost
  | apiPort
  | gateway
  | checkFirst
  | userClass
  | dataFolder
  | leaseFile
  | leasePollSeconds
  | logFilter
deriving DecidableEq, Repr

/-- Why there are no settings. -/
inductive SettingsError where
  | invalid (key : Setting) (value : String)
  | unreadable (fault : FileFault)
deriving DecidableEq, Repr

namespace Setting

/-- The key that names the setting in a file. -/
def key : Setting → String
  | bindAddress => "bind_address"
  | bindPort => "bind_port"
  | outPort => "out_port"
  | efiOutPort => "efi_out_port"
  | interface => "interface"
  | apiHost => "api_server_address"
  | apiPort => "api_server_port"
  | gateway => "gateway"
  | checkFirst => "send_boot_file_name_check"
  | userClass => "user_class"
  | dataFolder => "data_dir"
  | leaseFile => "leases_file"
  | leasePollSeconds => "lease_poll_interval_secs"
  | logFilter => "log_filter"

/-- Every setting, in the order in which the environment is asked for them. -/
def all : List Setting :=
  [bindAddress, bindPort, outPort, efiOutPort, interface, apiHost, apiPort, gateway, checkFirst,
    userClass, dataFolder, leaseFile, leasePollSeconds, logFilter]

def ofKey? (key : String) : Option Setting := all.find? (·.key = key)

/-- The variable of the environment that overrides the setting. -/
def envName (s : Setting) : String :=
  "PXE_PROXY_" ++ String.ofList (s.key.toList.map Char.toUpper)

/-- The values of a setting. -/
@[reducible] def Value : Setting → Type
  | bindAddress | gateway => Ipv4
  | bindPort | outPort | efiOutPort | apiPort => UInt16
  | interface => Option String
  | checkFirst => Bool
  | leasePollSeconds => UInt64
  | apiHost | userClass | dataFolder | leaseFile | logFilter => String

end Setting

namespace Settings

def get (c : Settings) : (s : Setting) → s.Value
  | .bindAddress => c.bindAddress
  | .bindPort => c.bindPort
  | .outPort => c.outPort
  | .efiOutPort => c.efiOutPort
  | .interface => c.interface
  | .apiHost => c.apiHost
  | .apiPort => c.apiPort
  | .gateway => c.gateway
  | .checkFirst => c.checkFirst
  | .userClass => c.userClass
  | .dataFolder => c.dataFolder
  | .leaseFile => c.leaseFile
  | .leasePollSeconds => c.leasePollSeconds
  | .logFilter => c.logFilter

/-- The settings with another value for one of them. -/
def set (c : Settings) : (s : Setting) → s.Value → Settings
  | .bindAddress, v => { c with bindAddress := v }
  | .bindPort, v => { c with bindPort := v }
  | .outPort, v => { c with outPort := v }
  | .efiOutPort, v => { c with efiOutPort := v }
  | .interface, v => { c with interface := v }
  | .apiHost, v => { c with apiHost := v }
  | .apiPort, v => { c with apiPort := v }
  | .gateway, v => { c with gateway := v }
  | .checkFirst, v => { c with checkFirst := v }
  | .userClass, v => { c with userClass := v }
  | .dataFolder, v => { c with dataFolder := v }
  | .leaseFile, v => { c with leaseFile := v }
  | .leasePollSeconds, v => { c with leasePollSeconds := v }
  | .logFilter, v => { c with logFilter := v }

@[simp] theorem get_set_self (c : Settings) (s : Setting) (v : s.Value) : (c.set s v).get s = v := by
  cases s <;> rfl

theorem get_set_ne (c : Settings) {s t : Setting} (v : s.Value) (h : t ≠ s) :
    (c.set s v).get t = c.get t := by
  cases s <;> cases t <;> first | rfl | exact absurd rfl h

end Settings

/-! ## Values as text -/

/-- Yes and no, in four spellings each and in any case of ASCII letters. -/
def readSwitch? (value : String) : Option Bool :=
  let word := String.ofList (value.toList.map Char.toLower)
  if word ∈ ["true", "yes", "on", "1"] then some true
  else if word ∈ ["false", "no", "off", "0"] then some false
  else none

def readPort? (value : String) : Option UInt16 :=
  (Text.readUpTo? 65535 value.toList).map UInt16.ofNat

/-- A number of seconds, which is not zero. -/
def readInterval? (value : String) : Option UInt64 :=
  ((Text.readUpTo? (UInt64.size - 1) value.toList).filter (· ≠ 0)).map UInt64.ofNat

/-- The value of a setting from its text. -/
def Setting.read? : (s : Setting) → String → Option s.Value
  | bindAddress, value => Ipv4.ofText? value
  | bindPort, value => readPort? value
  | outPort, value => readPort? value
  | efiOutPort, value => readPort? value
  | interface, value => some (if value = "" then none else some value)
  | apiHost, value => some value
  | apiPort, value => readPort? value
  | gateway, value => Ipv4.ofText? value
  | checkFirst, value => readSwitch? value
  | userClass, value => some value
  | dataFolder, value => some value
  | leaseFile, value => some value
  | leasePollSeconds, value => readInterval? value
  | logFilter, value => some value

def SettingsError.message : SettingsError → String
  | invalid key value => s!"invalid value for {key.key}: {value}"
  | unreadable fault => s!"failed to read config file: {fault.message}"

/-! ## Files and the environment -/

namespace Settings

/-- The settings with one of them read from a text. -/
def assign (c : Settings) (a : Setting × String) : Except SettingsError Settings :=
  match a.1.read? a.2 with
  | some value => .ok (c.set a.1 value)
  | none => .error (.invalid a.1 a.2)

/-- The assignment on a line. Blank lines, lines that start with a number sign, lines without an
equals sign and unknown keys assign nothing. -/
def assignment? (line : List Char) : Option (Setting × String) :=
  match Text.trim line with
  | [] => none
  | '#' :: _ => none
  | line => do
    let (key, value) ← Text.splitOnce? '=' line
    let s ← Setting.ofKey? (String.ofList (Text.trim key))
    return (s, String.ofList (Text.trim value))

/-- The assignments of a file, in order. -/
def assignments (content : List Char) : List (Setting × String) :=
  (Text.lines content).filterMap assignment?

/-- The settings of a file on top of the defaults. The first value that is not valid stops the
reading. -/
def parse (content : String) : Except SettingsError Settings :=
  (assignments content.toList).foldlM assign {}

/-- The settings that the environment overrides, in the fixed order of the settings. Their
values are taken as they stand. -/
def overrides (env : String → Option String) : List (Setting × String) :=
  Setting.all.filterMap fun s => (env s.envName).map fun value => (s, value)

/-- The variable that names the file to read. -/
def pathVariable : String := "PXE_PROXY_CONFIG"

/-- The file that is read, if it is there, where no other is named. -/
def defaultPath : String := "/etc/pxe-proxy.conf"

/-- The settings of the bytes of a file. -/
def parseBytes (content : Bytes) : Except SettingsError Settings :=
  match Utf8.decode? content with
  | some text => parse (String.ofList text)
  | none => .error (.unreadable .notText)

/-- The settings of the file that is named, or of the default file, before the environment
overrides any. A file that is named has to be there. -/
def base (readFile : String → Except FileFault Bytes) (path : Option String) :
    Except SettingsError Settings :=
  match path with
  | some path =>
    match readFile path with
    | .ok content => parseBytes content
    | .error fault => .error (.unreadable fault)
  | none =>
    match readFile defaultPath with
    | .ok content => parseBytes content
    | .error .missing => .ok {}
    | .error fault => .error (.unreadable fault)

/-- The settings in force: those of the file named by `path` or by the environment, and over
them the overrides of the environment. -/
def load (readFile : String → Except FileFault Bytes) (path : Option String)
    (env : String → Option String) : Except SettingsError Settings := do
  let c ← base readFile (path.or (env pathVariable))
  (overrides env).foldlM assign c

end Settings

end NetBoot
