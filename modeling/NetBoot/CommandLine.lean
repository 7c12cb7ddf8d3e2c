-- The command line of the server.

namespace NetBoot

/-- What a command line asks for. -/
structure CommandLine where
  /-- The file of settings, where one is named. -/
  settingsPath : Option String := none
  /-- Whether a lease file is followed. -/
  followLeases : Bool := true
  help : Bool := false
deriving DecidableEq, Repr

namespace CommandLine

inductive Fault where
  | unknown (argument : String)
  | noValue (option : String)
deriving DecidableEq, Repr

def Fault.message : Fault → String
  | unknown argument => s!"unexpected argument '{argument}'"
  | noValue option => s!"a value is required for '{option}'"

/-- The text that explains the options. -/
def usage : String :=
  String.intercalate "\n"
    [ "Tells network boot clients which boot file to load.",
      "",
      "Options:",
      "  -c, --config <CONFIG>    the file of settings",
      "      --no-lease-poller    do not follow the lease file of the DHCP server",
      "  -h, --help               print this text" ]

/-- Reads the arguments one by one. A later file of settings replaces an earlier one. -/
def readFrom (c : CommandLine) : List String → Except Fault CommandLine
  | [] => .ok c
  | argument :: rest =>
    if argument = "-h" ∨ argument = "--help" then readFrom { c with help := true } rest
    else if argument = "--no-lease-poller" then readFrom { c with followLeases := false } rest
    else if argument = "-c" ∨ argument = "--config" then
      match rest with
      | [] => .error (.noValue argument)
      | path :: rest => readFrom { c with settingsPath := some path } rest
    else .error (.unknown argument)

def read (arguments : List String) : Except Fault CommandLine := readFrom {} arguments

end CommandLine

end NetBoot
