import Mqtt.Wire.Basic

/-!
# UTF-8 text

A byte string is a text when it is UTF-8. When it is not, the fault names the end of the
longest valid start and the length of what is wrong there.
-/
namespace Mqtt.Wire.Text

def toBytes (s : String) : Bytes := s.toUTF8.data.toList

/-- How many continuation bytes a first byte asks for and the range of the next one. -/
def opening (b : UInt8) : Option (Nat × UInt8 × UInt8) :=
  if b ≤ 0x7F then some (0, 0x80, 0xBF)
  else if b < 0xC2 then none
  else if b ≤ 0xDF then some (1, 0x80, 0xBF)
  else if b = 0xE0 then some (2, 0xA0, 0xBF)
  else if b = 0xED then some (2, 0x80, 0x9F)
  else if b ≤ 0xEF then some (2, 0x80, 0xBF)
  else if b = 0xF0 then some (3, 0x90, 0xBF)
  else if b ≤ 0xF3 then some (3, 0x80, 0xBF)
  else if b = 0xF4 then some (3, 0x80, 0x8F)
  else none

/-- Where a byte string stops being UTF-8. `start` is the index of the sequence being read,
`seen` how many of its bytes were read, `owed` how many are still to come, the next of them
between `low` and `high`. -/
def faultFrom (start seen owed : Nat) (low high : UInt8) : Bytes → Nat × Option Nat
  | [] => (start, none)
  | b :: rest =>
    match owed with
    | 0 =>
      match opening b with
      | none => (start, some 1)
      | some (0, _, _) => faultFrom (start + 1) 0 0 0x80 0xBF rest
      | some (n + 1, lo, hi) => faultFrom start 1 (n + 1) lo hi rest
    | n + 1 =>
      if low ≤ b ∧ b ≤ high then
        match n with
        | 0 => faultFrom (start + seen + 1) 0 0 0x80 0xBF rest
        | m + 1 => faultFrom start (seen + 1) (m + 1) 0x80 0xBF rest
      else (start, some seen)

def faultOf (bs : Bytes) : Nat × Option Nat := faultFrom 0 0 0 0x80 0xBF bs

/-- Read a byte string as text. -/
def ofBytes (bs : Bytes) : Except Fault String :=
  match String.fromUTF8? ⟨bs.toArray⟩ with
  | some s => .ok s
  | none => .error (.invalidText (faultOf bs).1 (faultOf bs).2)

/-- ASCII letters, digits, punctuation and the space. -/
def isPlain (s : String) : Bool := s.toList.all fun c => 0x20 ≤ c.val && c.val ≤ 0x7E

/-- The text of a byte string when it is plain. -/
def plain? (bs : Bytes) : Option String :=
  match ofBytes bs with
  | .ok s => if isPlain s then some s else none
  | .error _ => none

theorem fromUTF8?_toUTF8 (s : String) : String.fromUTF8? s.toUTF8 = some s := by
  simp [String.fromUTF8?, s.isValidUTF8, String.fromUTF8]

@[simp] theorem ofBytes_toBytes (s : String) : ofBytes (toBytes s) = .ok s := by
  simp only [ofBytes, toBytes, Array.toArray_toList]
  have h : String.fromUTF8? ⟨s.toUTF8.data⟩ = some s := fromUTF8?_toUTF8 s
  rw [h]

@[simp] theorem length_toBytes (s : String) : (toBytes s).length = s.utf8ByteSize := rfl

end Mqtt.Wire.Text
