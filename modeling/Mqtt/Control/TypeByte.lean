import Mqtt.Control.Kind
import Mqtt.QoS

/-!
# The type byte

The first byte of every packet: the packet type in the high half, flags in the low half. The
flags of a PUBLISH say whether it is a repetition, its quality of service and whether it is
retained; every other type has one fixed value.
-/
namespace Mqtt

structure Flags where
  dup : Bool
  qos : Fin 4
  retain : Bool
  deriving DecidableEq, Repr

namespace Flags

def toNat (f : Flags) : Nat := 8 * f.dup.toNat + 2 * f.qos.val + f.retain.toNat

/-- The flags in the low half of a byte. -/
def ofByte (b : UInt8) : Flags where
  dup := b.toNat / 8 % 2 == 1
  qos := ⟨b.toNat / 2 % 4, Nat.mod_lt _ (by decide)⟩
  retain := b.toNat % 2 == 1

/-- The flags that every type but PUBLISH must have. -/
def standard : Kind → Flags
  | .pubrel | .subscribe | .unsubscribe => ofByte 2
  | _ => ofByte 0

def publish (q : QoS) : Flags := ⟨false, q.level, false⟩

end Flags

/-- Hexadecimal digits in upper case. -/
def hexDigits (n : Nat) : String := String.ofList ((Nat.toDigits 16 n).map Char.toUpper)

/-- Why a byte is no type byte. -/
inductive TypeError
  | reserved (code flags : Nat)
  | invalidFlags (kind : Kind) (flags : Nat)
  deriving DecidableEq, Repr

def TypeError.message : TypeError → String
  | reserved code flags => "reserved type " ++ toString code ++ " (flags 0x" ++ hexDigits flags ++ ")"
  | invalidFlags kind flags => "invalid flag for " ++ kind.title ++ " (0x" ++ hexDigits flags ++ ")"

structure TypeByte where
  kind : Kind
  flags : Flags
  deriving DecidableEq, Repr

namespace TypeByte

def standard (kind : Kind) : TypeByte := ⟨kind, .standard kind⟩

def toByte (t : TypeByte) : UInt8 := UInt8.ofNat (16 * t.kind.code + t.flags.toNat)

/-- Whether a type may have these flags. Only PUBLISH has a choice: its quality of service must
exist, and one that is never repeated cannot be a repetition. -/
def allowed (kind : Kind) (flags : UInt8) : Bool :=
  match kind with
  | .publish =>
    let f := Flags.ofByte flags
    f.qos.val ≤ 2 && !(f.dup && f.qos.val == 0)
  | _ => (Flags.standard kind).toNat == flags.toNat

def ofFlags (kind : Kind) (flags : UInt8) : Except TypeError TypeByte :=
  if allowed kind flags then .ok ⟨kind, .ofByte flags⟩ else .error (.invalidFlags kind flags.toNat)

def ofByte (b : UInt8) : Except TypeError TypeByte :=
  match Kind.ofCode? (b.toNat / 16) with
  | none => .error (.reserved (b.toNat / 16) (b.toNat % 16))
  | some kind => ofFlags kind (b % 16)

def text (t : TypeByte) : String := t.kind.name

theorem ofByte_toByte_standard (kind : Kind) :
    ofByte (standard kind).toByte = .ok (standard kind) := by
  cases kind <;> rfl

end TypeByte

end Mqtt
