import Mqtt.QoS

/-!
# Return codes

The answers of the broker to CONNECT and to SUBSCRIBE.
-/
namespace Mqtt

/-- The broker's answer to a CONNECT. -/
inductive ConnectCode
  | accepted
  | protocolVersion
  | identifierRejected
  | serverUnavailable
  | badCredentials
  | notAuthorized
  deriving DecidableEq, Repr

namespace ConnectCode

def toByte : ConnectCode → UInt8
  | accepted => 0
  | protocolVersion => 1
  | identifierRejected => 2
  | serverUnavailable => 3
  | badCredentials => 4
  | notAuthorized => 5

def all : List ConnectCode :=
  [accepted, protocolVersion, identifierRejected, serverUnavailable, badCredentials, notAuthorized]

def ofByte? (b : UInt8) : Option ConnectCode := all.find? fun c => c.toByte == b

def isAccepted (c : ConnectCode) : Bool := c == accepted

def text : ConnectCode → String
  | accepted => "connection accepted"
  | protocolVersion => "unacceptable protocol version"
  | identifierRejected => "identifier rejected"
  | serverUnavailable => "server unavailable"
  | badCredentials => "bad user name or password"
  | notAuthorized => "not authorized"

@[simp] theorem ofByte?_toByte (c : ConnectCode) : ofByte? c.toByte = some c := by cases c <;> rfl

end ConnectCode

/-- The broker's answer to a SUBSCRIBE: the quality of service it grants, or a refusal. -/
inductive SubscribeCode
  | granted (qos : QoS)
  | failure
  deriving DecidableEq, Repr

namespace SubscribeCode

def toByte : SubscribeCode → UInt8
  | granted qos => qos.toByte
  | failure => 128

def ofByte? (b : UInt8) : Option SubscribeCode :=
  if b = 128 then some failure else (QoS.ofByte? b).map granted

def granted? : SubscribeCode → Option QoS
  | granted qos => some qos
  | failure => none

def text (c : SubscribeCode) : String := toString c.toByte.toNat

/-- What is said of a byte that is no subscribe return code. -/
def refusal (b : UInt8) : String := "invalid subscribe return code " ++ toString b.toNat

@[simp] theorem ofByte?_toByte (c : SubscribeCode) : ofByte? c.toByte = some c := by
  cases c with
  | failure => rfl
  | granted q => cases q <;> rfl

end SubscribeCode

end Mqtt
