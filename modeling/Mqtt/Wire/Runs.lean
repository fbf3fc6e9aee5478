import Mqtt.Wire.Field

/-!
# Runs

A byte string told run by run: a byte, and how often it stands there. What is asked of gigabytes of
one byte is answered without laying them out.
-/
namespace Mqtt.Wire

/-- A byte, so many times. -/
structure Run where
  byte : UInt8
  count : Nat
  deriving DecidableEq, Repr

def Run.bytes (r : Run) : Bytes := List.replicate r.count r.byte

abbrev Runs := List Run

namespace Runs

/-- The bytes laid out. -/
def bytes (rs : Runs) : Bytes := rs.flatMap Run.bytes

def ofBytes (bs : Bytes) : Runs := bs.map fun b => ⟨b, 1⟩

def size (rs : Runs) : Nat := rs.foldr (fun r n => r.count + n) 0

/-- Every byte is a letter, a digit, a punctuation mark or a space of ASCII. -/
def isPlain (rs : Runs) : Bool := rs.all fun r => r.count == 0 || (0x20 ≤ r.byte && r.byte ≤ 0x7E)

@[simp] theorem bytes_cons (r : Run) (rs : Runs) : bytes (r :: rs) = r.bytes ++ bytes rs :=
  List.flatMap_cons

@[simp] theorem bytes_append (rs ts : Runs) : bytes (rs ++ ts) = bytes rs ++ bytes ts :=
  List.flatMap_append

@[simp] theorem bytes_ofBytes (bs : Bytes) : bytes (ofBytes bs) = bs := by
  induction bs with
  | nil => rfl
  | cons b bs ih =>
    change [b] ++ bytes (ofBytes bs) = b :: bs
    rw [ih, List.singleton_append]

@[simp] theorem length_bytes (rs : Runs) : (bytes rs).length = size rs := by
  induction rs with
  | nil => rfl
  | cons r rs ih => simp [size, Run.bytes, ih]

end Runs

end Mqtt.Wire
