import Mqtt.Control.TypeByte
import Mqtt.Wire.VarInt
import Mqtt.Wire.Field

/-!
# The fixed header

The type byte and the size of the body. It is read in three ways: from a source that ends
(`read`), from a stream whose bytes are awaited one by one (`await`), and from the start of a
buffer that may not hold all of it yet (`scan?`).
-/
namespace Mqtt
open Wire

structure FixedHeader where
  type : TypeByte
  remaining : UInt32
  deriving DecidableEq, Repr

/-- Why no fixed header could be read. -/
inductive HeaderError
  | malformedLength
  /-- A type number the standard does not use, with the size of the body that follows. -/
  | reserved (code : Nat) (remaining : UInt32)
  | type (error : TypeError)
  | wire (fault : Fault)
  deriving DecidableEq, Repr

def HeaderError.message : HeaderError → String
  | malformedLength => "malformed remaining length"
  | reserved code remaining => s!"reserved header ({code}, {remaining})"
  | type error => error.message
  | wire fault => fault.message

namespace FixedHeader

def write (h : FixedHeader) : Written := .ok [h.type.toByte] ++ VarInt.write h.remaining

def width (h : FixedHeader) : UInt32 := 1 + VarInt.width h.remaining

def text (h : FixedHeader) : String :=
  "\x7bpacket_type: " ++ h.type.text ++ ", remaining_length: " ++ toString h.remaining ++ "\x7d"

/-- A header from its two parts. -/
def ofParts (type : UInt8) (remaining : UInt32) : Except HeaderError FixedHeader :=
  match TypeByte.ofByte type with
  | .ok t => .ok ⟨t, remaining⟩
  | .error (.reserved code _) => .error (.reserved code remaining)
  | .error error => .error (.type error)

/-- The size of the body: at most `limit` digits, and one more byte is looked at before a longer
one is called malformed. -/
def readLength : (limit : Nat) → Bytes → Except (Stop HeaderError) (Nat × Bytes)
  | _, [] => .error ⟨.wire .shortField, []⟩
  | 0, _ :: rest => .error ⟨.malformedLength, rest⟩
  | limit + 1, b :: rest =>
    if b < 128 then .ok (b.toNat, rest)
    else do
      let (n, rest) ← readLength limit rest
      .ok (b.toNat % 128 + 128 * n, rest)

/-- The two parts of a header, the type byte not looked at yet. -/
def readParts : Bytes → Except (Stop HeaderError) ((UInt8 × UInt32) × Bytes)
  | [] => .error ⟨.wire .shortField, []⟩
  | type :: rest => do
    let (n, rest) ← readLength 4 rest
    .ok ((type, n.toUInt32), rest)

def read (bs : Bytes) : Except (Stop HeaderError) (FixedHeader × Bytes) := do
  let ((type, remaining), rest) ← readParts bs
  leaving rest (ofParts type remaining)

/-- Await the bytes of the size, the `index`-th next, adding each digit to the `sum` so far. -/
def awaitLength (index sum : Nat) : Bytes → Except (Stop HeaderError) (Nat × Bytes)
  | [] => .error ⟨.wire .endOfInput, []⟩
  | b :: rest =>
    if 4 ≤ index then .error ⟨.malformedLength, rest⟩
    else
      let sum := sum + b.toNat % 128 * Nat.pow 128 index
      if b < 128 then .ok (sum, rest) else awaitLength (index + 1) sum rest

def await : Bytes → Except (Stop HeaderError) (FixedHeader × Bytes)
  | [] => .error ⟨.wire .endOfInput, []⟩
  | type :: rest => do
    let (n, rest) ← awaitLength 0 0 rest
    leaving rest (ofParts type n.toUInt32)

/-- The size at the start of a buffer and how many bytes it takes, `none` when it is not all
there. -/
def scanLength? (bs : Bytes) : Option (Except HeaderError (Nat × Nat)) :=
  let size := bs.take 4
  let leading := (size.takeWhile fun b => 128 ≤ b).length
  if leading < size.length then
    some (.ok ((size.take (leading + 1)).foldr (fun b n => b.toNat % 128 + 128 * n) 0, leading + 1))
  else if bs.length ≤ 4 then none
  else some (.error .malformedLength)

/-- The type of a packet in a stream: a valid type byte or a type number without a use. -/
inductive StreamType
  | standard (type : TypeByte)
  | reserved (code : Nat)
  deriving DecidableEq, Repr

/-- The header at the start of a buffer and how many bytes it takes, `none` when it is not all
there. -/
def scan? : Bytes → Option (Except HeaderError (StreamType × UInt32 × Nat))
  | [] => none
  | type :: rest =>
    match scanLength? rest with
    | none => none
    | some (.error e) => some (.error e)
    | some (.ok (n, used)) =>
      match TypeByte.ofByte type with
      | .ok t => some (.ok (.standard t, n.toUInt32, used + 1))
      | .error (.reserved code _) => some (.ok (.reserved code, n.toUInt32, used + 1))
      | .error e => some (.error (.type e))

end FixedHeader

end Mqtt
