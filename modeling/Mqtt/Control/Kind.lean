/-!
# Control packet types

The fourteen packet types of the protocol and what the standard fixes for each: its number,
its name, the flags it must have and, for some, the size of its body.
-/
namespace Mqtt

/-- The type of a control packet. -/
inductive Kind
  | connect
  | connack
  | publish
  | puback
  | pubrec
  | pubrel
  | pubcomp
  | subscribe
  | suback
  | unsubscribe
  | unsuback
  | pingreq
  | pingresp
  | disconnect
  deriving DecidableEq, Repr

namespace Kind

def code : Kind → Nat
  | connect => 1
  | connack => 2
  | publish => 3
  | puback => 4
  | pubrec => 5
  | pubrel => 6
  | pubcomp => 7
  | subscribe => 8
  | suback => 9
  | unsubscribe => 10
  | unsuback => 11
  | pingreq => 12
  | pingresp => 13
  | disconnect => 14

def all : List Kind :=
  [connect, connack, publish, puback, pubrec, pubrel, pubcomp, subscribe, suback, unsubscribe,
    unsuback, pingreq, pingresp, disconnect]

def ofCode? (n : Nat) : Option Kind := all.find? fun k => k.code == n

def name : Kind → String
  | connect => "CONNECT"
  | connack => "CONNACK"
  | publish => "PUBLISH"
  | puback => "PUBACK"
  | pubrec => "PUBREC"
  | pubrel => "PUBREL"
  | pubcomp => "PUBCOMP"
  | subscribe => "SUBSCRIBE"
  | suback => "SUBACK"
  | unsubscribe => "UNSUBSCRIBE"
  | unsuback => "UNSUBACK"
  | pingreq => "PINGREQ"
  | pingresp => "PINGRESP"
  | disconnect => "DISCONNECT"

/-- The name written out in words. -/
def title : Kind → String
  | connect => "Connect"
  | connack => "ConnectAcknowledgement"
  | publish => "Publish"
  | puback => "PublishAcknowledgement"
  | pubrec => "PublishReceived"
  | pubrel => "PublishRelease"
  | pubcomp => "PublishComplete"
  | subscribe => "Subscribe"
  | suback => "SubscribeAcknowledgement"
  | unsubscribe => "Unsubscribe"
  | unsuback => "UnsubscribeAcknowledgement"
  | pingreq => "PingRequest"
  | pingresp => "PingResponse"
  | disconnect => "Disconnect"

/-- The size of the body, for types whose body never varies. -/
def fixedSize? : Kind → Option UInt32
  | connack | puback | pubrec | pubrel | pubcomp | unsuback => some 2
  | pingreq | pingresp | disconnect => some 0
  | _ => none

@[simp] theorem ofCode?_code (k : Kind) : ofCode? k.code = some k := by cases k <;> rfl

theorem code_lt (k : Kind) : k.code < 16 := by cases k <;> decide

end Kind

end Mqtt
