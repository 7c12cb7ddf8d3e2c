-- The rows of the registry's tables: machines with their addresses, and the active tasks.
import NetBoot.Boot.Services
import NetBoot.Text.Blank
import NetBoot.Text.LowerCase
import NetBoot.Time.Timestamp

namespace NetBoot

/-- A hardware address as the registry compares it: without blanks around it, in lower case. -/
def registryMac (mac : String) : String := String.ofList (Text.lower (Text.trim mac.toList))

/-- Why a line is no row. -/
inductive RowFault where
  | nodeFields (line : String)
  | discovered (field : String)
  | address (field : String)
  | timestamp (field : String)
  | taskFields (line : String)
deriving DecidableEq, Repr

def RowFault.message : RowFault → String
  | nodeFields line => s!"invalid node line: {line}"
  | discovered field => s!"invalid discovered flag: {field}"
  | address field => s!"invalid IP address: {field}"
  | timestamp field => s!"invalid timestamp: {field}"
  | taskFields line => s!"invalid task line: {line}"

/-- A machine with the address that it was last seen with. A row without an identifier is an
observation of a machine that nobody has entered. -/
structure NodeRow where
  id : NodeId
  mac : String
  discovered : Bool
  profile : String
  address : Option Ipv4
  lastSeen : Instant
deriving DecidableEq, Repr

namespace NodeRow

/-- The row of a machine that has only been seen with an address. -/
def observed (mac : String) (address : Ipv4) (now : Instant) : NodeRow where
  id := ""
  mac := registryMac mac
  discovered := false
  profile := ""
  address := some address
  lastSeen := now

def readFlag? (field : List Char) : Option Bool :=
  if field = "true".toList then some true
  else if field = "false".toList then some false
  else none

/-- An address, or nothing for an empty field. -/
def readAddress? (field : List Char) : Option (Option Ipv4) :=
  if field = [] then some none else (Ipv4.ofChars? field).map some

/-- The row of six fields with commas between them. -/
def read (line : List Char) : Except RowFault NodeRow :=
  match Text.fields ',' line with
  | [id, mac, discovered, profile, address, lastSeen] =>
    match readFlag? discovered with
    | none => .error (.discovered (String.ofList discovered))
    | some flag =>
      match readAddress? address with
      | none => .error (.address (String.ofList address))
      | some ip =>
        match Timestamp.read? lastSeen with
        | none => .error (.timestamp (String.ofList lastSeen))
        | some instant =>
          .ok
            { id := String.ofList id
              mac := registryMac (String.ofList mac)
              discovered := flag
              profile := String.ofList profile
              address := ip
              lastSeen := instant }
  | _ => .error (.nodeFields (String.ofList line))

/-- The fields of a row, as they are written. -/
def fieldTexts (r : NodeRow) : List (List Char) :=
  [r.id.toList, r.mac.toList, (if r.discovered then "true" else "false").toList, r.profile.toList,
    (r.address.map Ipv4.chars).getD [], Timestamp.write r.lastSeen]

/-- The line of a row. -/
def write (r : NodeRow) : List Char := List.intercalate [','] r.fieldTexts

/-- The machine of a row that is not a mere observation. -/
def node? (r : NodeRow) : Option Node :=
  if r.id = "" then none
  else some ⟨r.id, r.discovered, if r.profile = "" then none else some r.profile⟩

end NodeRow

/-- The active task of a machine: the boot profile that it asks for. -/
structure TaskRow where
  id : NodeId
  profile : String
deriving DecidableEq, Repr

/-- The row of a machine and a profile with the only comma between them. -/
def TaskRow.read (line : List Char) : Except RowFault TaskRow :=
  match Text.splitOnce? ',' line with
  | some (id, profile) =>
    if id ≠ [] ∧ ',' ∉ profile then .ok ⟨String.ofList id, String.ofList profile⟩
    else .error (.taskFields (String.ofList line))
  | none => .error (.taskFields (String.ofList line))

end NetBoot
