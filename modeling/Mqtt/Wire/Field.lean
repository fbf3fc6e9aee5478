import Mqtt.Wire.Text

/-!
# Fields

Bytes, two-byte numbers, and the two kinds of length-prefixed data: binary data and text. A
reader returns the value and the input it left. Lengths are counted in 32 bits.
-/
namespace Mqtt.Wire

/-- The size of a byte string in 32 bits. -/
def size32 (bs : Bytes) : UInt32 := bs.length.toUInt32

def readByte : Bytes → Except (Stop Fault) (UInt8 × Bytes)
  | [] => .error ⟨.shortField, []⟩
  | b :: rest => .ok (b, rest)

/-- Exactly `n` bytes. -/
def readExact (n : Nat) (bs : Bytes) : Except (Stop Fault) (Bytes × Bytes) :=
  if bs.length < n then .error ⟨.shortField, []⟩ else .ok (bs.take n, bs.drop n)

/-- Exactly `n` bytes of payload. -/
def readPayload (n : Nat) (bs : Bytes) : Except (Stop Fault) (Bytes × Bytes) :=
  if bs.length < n then .error ⟨.endOfInput, []⟩ else .ok (bs.take n, bs.drop n)

/-- A number of two bytes, the high one first. -/
def word (n : UInt16) : Bytes := [UInt8.ofNat (n.toNat / 256), UInt8.ofNat (n.toNat % 256)]

def readWord : Bytes → Except (Stop Fault) (UInt16 × Bytes)
  | hi :: lo :: rest => .ok (UInt16.ofNat (256 * hi.toNat + lo.toNat), rest)
  | _ => .error ⟨.shortField, []⟩

/-- The largest length a two-byte prefix holds. -/
def maxPrefixed : Nat := 65535

namespace Binary

def write (bs : Bytes) : Written :=
  if bs.length ≤ maxPrefixed then .ok (word bs.length.toUInt16 ++ bs) else .refuse .binaryTooLong

def width (bs : Bytes) : UInt32 := 2 + size32 bs

def read (bs : Bytes) : Except (Stop Fault) (Bytes × Bytes) := do
  let (n, rest) ← readWord bs
  readExact n.toNat rest

/-- Plain text as it is, other data as a list of numbers. -/
def text (bs : Bytes) : String :=
  match Text.plain? bs with
  | some s => s
  | none => "[" ++ String.intercalate ", " (bs.map fun b => toString b.toNat) ++ "]"

end Binary

namespace Text

def write (s : String) : Written :=
  if s.utf8ByteSize ≤ maxPrefixed then .ok (word s.utf8ByteSize.toUInt16 ++ toBytes s)
  else .refuse .textTooLong

def width (s : String) : UInt32 := 2 + s.utf8ByteSize.toUInt32

def read (bs : Bytes) : Except (Stop Fault) (String × Bytes) := do
  let (data, rest) ← Binary.read bs
  leaving rest (ofBytes data)

end Text

theorem readWord_word (n : UInt16) (rest : Bytes) : readWord (word n ++ rest) = .ok (n, rest) := by
  have h := n.toNat_lt
  simp only [word, readWord, List.cons_append, List.nil_append]
  congr 2
  apply UInt16.toNat_inj.1
  simp only [UInt16.toNat_ofNat', UInt8.toNat_ofNat']
  omega

@[simp] theorem length_word (n : UInt16) : (word n).length = 2 := rfl

theorem readExact_append (bs rest : Bytes) : readExact bs.length (bs ++ rest) = .ok (bs, rest) := by
  simp [readExact]

end Mqtt.Wire
