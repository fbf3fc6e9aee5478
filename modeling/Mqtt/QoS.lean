import Mqtt.Wire.Basic

/-!
# Qualities of service

How often a message is delivered, alone and together with the packet identifier that the two
acknowledged levels carry.
-/
namespace Mqtt

inductive QoS
  | atMostOnce
  | atLeastOnce
  | exactlyOnce
  deriving DecidableEq, Repr

namespace QoS

def level : QoS → Fin 4
  | atMostOnce => 0
  | atLeastOnce => 1
  | exactlyOnce => 2

def toByte (q : QoS) : UInt8 := UInt8.ofNat q.level.val

def ofByte? (b : UInt8) : Option QoS :=
  if b = 0 then some atMostOnce
  else if b = 1 then some atLeastOnce
  else if b = 2 then some exactlyOnce
  else none

def text (q : QoS) : String := toString q.level.val

/-- What is said of a byte that is no quality of service. -/
def refusal (b : UInt8) : String := "invalid quality of service (" ++ toString b.toNat ++ ")"

@[simp] theorem ofByte?_toByte (q : QoS) : ofByte? q.toByte = some q := by cases q <;> rfl

end QoS

/-- A quality of service with the packet identifier it needs. -/
inductive Delivery
  | atMostOnce
  | atLeastOnce (id : UInt16)
  | exactlyOnce (id : UInt16)
  deriving DecidableEq, Repr

namespace Delivery

def of (q : QoS) (id : UInt16) : Delivery :=
  match q with
  | .atMostOnce => atMostOnce
  | .atLeastOnce => atLeastOnce id
  | .exactlyOnce => exactlyOnce id

def qos : Delivery → QoS
  | atMostOnce => .atMostOnce
  | atLeastOnce _ => .atLeastOnce
  | exactlyOnce _ => .exactlyOnce

def id? : Delivery → Option UInt16
  | atMostOnce => none
  | atLeastOnce id => some id
  | exactlyOnce id => some id

end Delivery

end Mqtt
