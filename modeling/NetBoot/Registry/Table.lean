-- Tables of rows in text files, one row a line.
import NetBoot.Registry.Row

namespace NetBoot

/-- The lines of a file that still are bytes. -/
def byteLines : Bytes → List Bytes
  | [] => [[]]
  | b :: rest =>
    if b = 0x0A then [] :: byteLines rest
    else
      match byteLines rest with
      | [] => [[b]]
      | line :: lines => (b :: line) :: lines

/-- Reads one line: nothing for a blank line, and the fault of a line that is not UTF-8 or is no
row. -/
def readRowLine {α : Type} (read : List Char → Except RowFault α) (line : Bytes) :
    Except ServiceError (Option α) :=
  match Utf8.decode? line with
  | none => .error (.storage .notText)
  | some text =>
    match Text.trim text with
    | [] => .ok none
    | text =>
      match read text with
      | .ok row => .ok (some row)
      | .error fault => .error (.corrupt fault.message)

/-- Reads the lines in order. The first fault counts. -/
def readRowLines {α : Type} (read : List Char → Except RowFault α) :
    List Bytes → Except ServiceError (List α)
  | [] => .ok []
  | line :: rest => do
    let row ← readRowLine read line
    let rows ← readRowLines read rest
    return row.toList ++ rows

/-- The rows of a file. -/
def readTable {α : Type} (read : List Char → Except RowFault α) (content : Bytes) :
    Except ServiceError (List α) :=
  readRowLines read (byteLines content)

def readNodeTable (content : Bytes) : Except ServiceError (List NodeRow) :=
  readTable NodeRow.read content

/-- The file of some rows, each on a line of its own. -/
def writeNodeTable (rows : List NodeRow) : Bytes :=
  Utf8.encode (rows.flatMap fun r => r.write ++ ['\n'])

namespace NodeRow

/-- The first machine among the rows that fit, mere observations left out. -/
def firstNode? (fits : NodeRow → Bool) (rows : List NodeRow) : Option Node :=
  (rows.filter fits).findSome? node?

/-- Takes an address away from a row of another hardware address. -/
def yieldAddress (mac : String) (ip : Ipv4) (r : NodeRow) : NodeRow :=
  if r.mac ≠ mac ∧ r.address = some ip then { r with address := none } else r

/-- Gives the address to the first row of a hardware address, or to a new row at the end if there
is none. -/
def takeAddress (mac : String) (ip : Ipv4) (now : Instant) : List NodeRow → List NodeRow
  | [] => [observed mac ip now]
  | r :: rest =>
    if r.mac = mac then { r with address := some ip, lastSeen := now } :: rest
    else r :: takeAddress mac ip now rest

/-- The rows after the news that a hardware address holds an address, which no other one holds
any more. -/
def announce (mac : String) (ip : Ipv4) (now : Instant) (rows : List NodeRow) : List NodeRow :=
  takeAddress mac ip now (rows.map (yieldAddress mac ip))

end NodeRow

end NetBoot
