/-!
# Names of servers

The name that a broker's certificate is checked against: a domain name or an IP address.
-/
namespace Mqtt.ServerName

def isLetter (c : Char) : Bool := ('a' ≤ c && c ≤ 'z') || ('A' ≤ c && c ≤ 'Z')

def isDigit (c : Char) : Bool := '0' ≤ c && c ≤ '9'

def isHexDigit (c : Char) : Bool := isDigit c || ('a' ≤ c && c ≤ 'f') || ('A' ≤ c && c ≤ 'F')

/-! ## Domain names -/

/-- A label has up to 63 letters, digits, underscores and hyphens, no hyphen at either end. -/
def isLabel (s : List Char) : Bool :=
  s != [] && s.length ≤ 63 && s.head? != some '-' && s.getLast? != some '-' &&
    s.all fun c => isLetter c || isDigit c || c == '_' || c == '-'

/-- The last label, which a dot may follow, is no number. -/
def areLabels : List (List Char) → Bool
  | [] => false
  | [label] | [label, []] => isLabel label && !label.all isDigit
  | label :: labels => isLabel label && areLabels labels

def isDomain (s : String) : Bool :=
  s.utf8ByteSize ≤ 253 && areLabels ((s.splitOn ".").map String.toList)

/-! ## IP addresses -/

/-- Up to three digits without a needless zero in front, 255 at most. -/
def isOctet (s : String) : Bool :=
  let cs := s.toList
  cs != [] && cs.length ≤ 3 && cs.all isDigit && (cs.length == 1 || cs.head? != some '0') &&
    cs.foldl (fun n c => 10 * n + (c.toNat - '0'.toNat)) 0 ≤ 255

def isAddress4 (s : String) : Bool :=
  let octets := s.splitOn "."
  octets.length == 4 && octets.all isOctet

def isGroup (s : String) : Bool :=
  let cs := s.toList
  cs != [] && cs.length ≤ 4 && cs.all isHexDigit

/-- How many groups there are. The last two may be written as an address of the shorter kind, if
`mixed` allows it. -/
def groupCount? (mixed : Bool) : List String → Option Nat
  | [] => some 0
  | [s] => if isGroup s then some 1 else if mixed && isAddress4 s then some 2 else none
  | s :: ss => if isGroup s then (groupCount? mixed ss).map (· + 1) else none

/-- The groups of one side of a double colon. -/
def groups (s : String) : List String := if s = "" then [] else s.splitOn ":"

/-- Eight groups, or fewer of them around a double colon. -/
def isAddress6 (s : String) : Bool :=
  match s.splitOn "::" with
  | [whole] => groupCount? true (groups whole) == some 8
  | [before, after] =>
    match groupCount? false (groups before), groupCount? true (groups after) with
    | some m, some n => m + n ≤ 7
    | _, _ => false
  | _ => false

def isValid (s : String) : Bool := isDomain s || isAddress4 s || isAddress6 s

end Mqtt.ServerName
