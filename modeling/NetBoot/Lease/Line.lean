-- The lines of a DHCP server's lease file that matter here: the header of a lease, its end, its
-- hardware address and the brace that closes it.
import NetBoot.Net.Ipv4
import NetBoot.Text.Blank
import NetBoot.Text.Digit
import NetBoot.Text.Hex
import NetBoot.Time.Instant

namespace NetBoot

/-- When a lease ends. -/
inductive LeaseEnd where
  | never
  | at (i : Instant)
  /-- The line has the form of an end, and its date is none. -/
  | noDate
deriving DecidableEq, Repr

/-- Whether a lease with this end is over. -/
def LeaseEnd.isOver (now : Instant) : LeaseEnd → Bool
  | never => false
  | .at i => i.isAtMost now
  | noDate => true

inductive LeaseLine where
  /-- The header of a lease, with the address if the text is one. -/
  | header (address : Option Ipv4)
  | ends (e : LeaseEnd)
  /-- The hardware address in lower case and pairs of digits, if there are six of them. -/
  | hardware (mac : Option String)
  | close
  | other
deriving DecidableEq, Repr

namespace LeaseLine

open Text

/-- Whether a semicolon comes next, after any blanks. -/
def closes (s : List Char) : Bool := startsWith [';'] (trimStart s)

/-- The text before the last opening brace, if both are there. -/
def beforeLastBrace? (s : List Char) : Option (List Char) :=
  match s.reverse.dropWhile (· ≠ '{') with
  | _ :: before@(_ :: _) => some before.reverse
  | _ => none

/-- The address text of a header such as `lease 10.0.0.1 {`. It runs up to a blank, or up to the
last brace without a blank before it. -/
def headerText? (line : List Char) : Option (List Char) := do
  let rest ← after? "lease".toList line
  let rest ← afterBlanks? rest
  let first := word rest
  if first ≠ [] ∧ startsWith ['{'] (trimStart (rest.drop first.length)) then some first
  else beforeLastBrace? first

/-- From `fewest` to `most` digits of any script at the front, and the rest. -/
def digits? (fewest most : Nat) (s : List Char) : Option (List Char × List Char) :=
  let (digits, rest) := takeDigits most s
  if fewest ≤ digits.length then some (digits, rest) else none

/-- The instant of a date and time in ASCII digits, if it is one. -/
def instantOf? (year month day hour minute second : List Char) : Option Instant := do
  let year ← readNat? year
  let month ← readNat? month
  let day ← readNat? day
  let hour ← readNat? hour
  let minute ← readNat? minute
  let second ← readNat? second
  ClockTime.toInstant? ⟨⟨year, month, day⟩, hour, minute, second, 0⟩

/-- The end in a text such as `2015/04/20 21:24:52`, and the rest. The text has this form in
digits of any script, and only ASCII digits make a date. -/
def dateTime? (s : List Char) : Option (LeaseEnd × List Char) := do
  let (year, s) ← digits? 4 4 s
  let s ← after? ['/'] s
  let (month, s) ← digits? 1 2 s
  let s ← after? ['/'] s
  let (day, s) ← digits? 1 2 s
  let s ← afterBlanks? s
  let (hour, s) ← digits? 1 2 s
  let s ← after? [':'] s
  let (minute, s) ← digits? 2 2 s
  let s ← after? [':'] s
  let (second, s) ← digits? 2 2 s
  match instantOf? year month day hour minute second with
  | some i => return (.at i, s)
  | none => return (.noDate, s)

/-- The end in a line such as `ends 1 2015/04/20 21:24:52;` or `ends never;`. -/
def ends? (line : List Char) : Option LeaseEnd := do
  let rest ← after? "ends".toList line
  let rest ← afterBlanks? rest
  match after? "never".toList rest with
  | some rest => if closes rest then some .never else none
  | none =>
    let (_, rest) ← digits? 1 rest.length rest
    let rest ← afterBlanks? rest
    let (e, rest) ← dateTime? rest
    if closes rest then some e else none

/-- One or two hexadecimal digits as a pair in lower case. -/
def pair? : List Char → Option (List Char)
  | [c] => if (hexValue? c).isSome then some ['0', c.toLower] else none
  | [c, d] =>
    if (hexValue? c).isSome ∧ (hexValue? d).isSome then some [c.toLower, d.toLower] else none
  | _ => none

/-- Six groups of one or two hexadecimal digits, as six pairs in lower case. -/
def macText? (s : List Char) : Option (List Char) := do
  let pairs ← (fields ':' s).mapM pair?
  if pairs.length = 6 then some (List.intercalate [':'] pairs) else none

/-- The hardware address text of a line such as `hardware ethernet 08:00:27:9b:d9:be;`. -/
def hardwareText? (line : List Char) : Option (List Char) := do
  let rest ← after? "hardware".toList line
  let rest ← afterBlanks? rest
  let rest ← after? "ethernet".toList rest
  let rest ← afterBlanks? rest
  let text := rest.takeWhile fun c => c = ':' ∨ (hexValue? c).isSome
  if text ≠ [] ∧ closes (rest.drop text.length) then some text else none

/-- What a line says, blanks at its ends aside. -/
def ofChars (line : List Char) : LeaseLine :=
  let line := trim line
  match headerText? line with
  | some text => header (Ipv4.ofChars? text)
  | none =>
    match ends? line with
    | some e => ends e
    | none =>
      match hardwareText? line with
      | some text => hardware ((macText? text).map String.ofList)
      | none => if startsWith ['}'] line then close else other

end LeaseLine

end NetBoot
