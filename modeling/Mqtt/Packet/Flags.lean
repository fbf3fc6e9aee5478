import Mqtt.Packet.Error

/-!
# Flag bytes of the variable header

The flags of CONNECT say which optional fields follow; those of CONNACK whether the broker kept
a session. The protocol level is the one this library speaks.
-/
namespace Mqtt
open Wire

structure ConnectFlags where
  username : Bool
  password : Bool
  willRetain : Bool
  willQos : UInt8
  will : Bool
  cleanSession : Bool
  deriving DecidableEq, Repr

namespace ConnectFlags

/-- The lowest bit stays clear; two bits of the will's quality of service are written. -/
def toByte (f : ConnectFlags) : UInt8 :=
  UInt8.ofNat (128 * f.username.toNat + 64 * f.password.toNat + 32 * f.willRetain.toNat +
    8 * (f.willQos.toNat % 4) + 4 * f.will.toNat + 2 * f.cleanSession.toNat)

def ofBits (b : UInt8) : ConnectFlags where
  username := b.toNat / 128 % 2 == 1
  password := b.toNat / 64 % 2 == 1
  willRetain := b.toNat / 32 % 2 == 1
  willQos := UInt8.ofNat (b.toNat / 8 % 4)
  will := b.toNat / 4 % 2 == 1
  cleanSession := b.toNat / 2 % 2 == 1

def ofByte (b : UInt8) : Except ConnectFlagsError ConnectFlags :=
  let f := ofBits b
  if b.toNat % 2 == 1 then .error .reservedBit
  else if 2 < f.willQos then .error (.willQos f.willQos)
  else if !f.will && (f.willRetain || f.willQos != 0) then .error .willFieldsWithoutWill
  else if f.password && !f.username then .error .passwordWithoutUsername
  else .ok f

def read : Bytes → Except (Stop ConnectFlagsError) (ConnectFlags × Bytes)
  | [] => .error ⟨.wire .shortField, []⟩
  | b :: rest => leaving rest (ofByte b)

end ConnectFlags

namespace ConnackFlags

def toByte (sessionPresent : Bool) : UInt8 := UInt8.ofNat sessionPresent.toNat

/-- Whether the broker kept a session; the other seven bits must be clear. -/
def read : Bytes → Except (Stop ConnackFlagsError) (Bool × Bytes)
  | [] => .error ⟨.wire .shortField, []⟩
  | b :: rest => if 1 < b then .error ⟨.reservedBits b, rest⟩ else .ok (b == 1, rest)

def text (sessionPresent : Bool) : String :=
  "\x7bsession_present: " ++ (if sessionPresent then "true" else "false") ++ "\x7d"

end ConnackFlags

namespace Protocol

def name : String := "MQTT"

def level : UInt8 := 4

def checkLevel (b : UInt8) : Except LevelError Unit :=
  if b = level then .ok () else .error (.unsupported b)

def readLevel : Bytes → Except (Stop LevelError) (Unit × Bytes)
  | [] => .error ⟨.wire .shortField, []⟩
  | b :: rest => leaving rest (checkLevel b)

end Protocol

namespace ConnectCode

def check (b : UInt8) : Except FieldError ConnectCode :=
  match ofByte? b with
  | some c => .ok c
  | none => .error (.connectCode b)

def read : Bytes → Except (Stop FieldError) (ConnectCode × Bytes)
  | [] => .error ⟨.wire .shortField, []⟩
  | b :: rest => leaving rest (check b)

end ConnectCode

end Mqtt
