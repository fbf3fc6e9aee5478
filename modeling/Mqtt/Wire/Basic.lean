/-!
# Bytes on the wire

What reading and writing the primitive wire fields share: byte strings, the reasons why a
field cannot be read or written, the answer of a reader, which keeps what was left of the input,
and the result of writing, which keeps the bytes that were already out when a field refused to be
written.
-/
namespace Mqtt.Wire

abbrev Bytes := List UInt8

/-- Why a field could not be read or written. -/
inductive Fault
  /-- A field of known size ran past the end of the input. -/
  | shortField
  /-- A payload of declared size, or a byte awaited from a stream, ran past the end. -/
  | endOfInput
  /-- A packet body was cut off while it was gathered from a stream. -/
  | shortBody
  /-- A variable-length integer went on after its fourth byte. -/
  | overlongInteger
  | textTooLong
  | binaryTooLong
  | integerTooLarge (value : UInt32)
  /-- Text that is not UTF-8: where the valid part ends, and how many bytes are wrong there,
  or `none` when the text ends inside a sequence that is valid so far. -/
  | invalidText (start : Nat) (length : Option Nat)
  deriving DecidableEq, Repr

def Fault.message : Fault → String
  | shortField => "failed to fill whole buffer"
  | endOfInput => "unexpected end of file"
  | shortBody => "early eof"
  | overlongInteger => "invalid data"
  | textTooLong => "string longer than 65535 bytes"
  | binaryTooLong => "binary data longer than 65535 bytes"
  | integerTooLarge value => s!"variable byte integer {value} out of range"
  | invalidText start (some length) => s!"invalid utf-8 sequence of {length} bytes from index {start}"
  | invalidText start none => s!"incomplete utf-8 byte sequence from index {start}"

/-- Why a reader stopped, and what it left of its input. A field that is cut short takes what
there is of it. -/
structure Stop (ε : Type) where
  reason : ε
  left : Bytes
  deriving DecidableEq, Repr

/-- The reason told to whoever asked for the field. -/
def Stop.map {ε δ : Type} (f : ε → δ) (s : Stop ε) : Stop δ := ⟨f s.reason, s.left⟩

section Readers
variable {ε α : Type}

/-- What a check says of what was read, in front of the rest. -/
def leaving (rest : Bytes) : Except ε α → Except (Stop ε) (α × Bytes)
  | .ok a => .ok (a, rest)
  | .error e => .error ⟨e, rest⟩

/-- The same answer with more input behind what was left. -/
def before (more : Bytes) : Except (Stop ε) (α × Bytes) → Except (Stop ε) (α × Bytes)
  | .ok (a, left) => .ok (a, left ++ more)
  | .error ⟨e, left⟩ => .error ⟨e, left ++ more⟩

/-- A value or a reason, whatever is left. -/
def answer : Except (Stop ε) (α × Bytes) → Except ε α
  | .ok (a, _) => .ok a
  | .error stop => .error stop.reason

end Readers

/-- What writing a value leaves in the output: the bytes and, if it stopped half way, why. -/
structure Written where
  bytes : Bytes
  fault : Option Fault
  deriving DecidableEq, Repr

namespace Written

def ok (bytes : Bytes) : Written := ⟨bytes, none⟩

def refuse (fault : Fault) : Written := ⟨[], some fault⟩

/-- Write one value after the other; a fault in the first keeps the second from being written. -/
def append (a b : Written) : Written :=
  match a.fault with
  | some _ => a
  | none => ⟨a.bytes ++ b.bytes, b.fault⟩

instance : Append Written := ⟨append⟩

def toExcept (w : Written) : Except Fault Bytes :=
  match w.fault with
  | some fault => .error fault
  | none => .ok w.bytes

@[simp] theorem ok_append (bs : Bytes) (w : Written) :
    ok bs ++ w = ⟨bs ++ w.bytes, w.fault⟩ := rfl

theorem toExcept_eq_ok_iff {w : Written} {bs : Bytes} :
    w.toExcept = .ok bs ↔ w = ok bs := by
  obtain ⟨bytes, fault⟩ := w
  cases fault <;> simp [toExcept, ok]

end Written

end Mqtt.Wire
