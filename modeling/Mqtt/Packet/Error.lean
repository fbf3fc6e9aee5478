import Mqtt.Control.FixedHeader
import Mqtt.Packet.Code
import Mqtt.Topic.Name
import Mqtt.Topic.Filter

/-!
# Why a packet is refused

The reasons are kept by the part of the packet that gives them: the fixed header, the fields of
the variable header, the payload, or the size of the whole.
-/
namespace Mqtt
open Wire

/-- Why the flags of a CONNECT are refused. -/
inductive ConnectFlagsError
  | wire (fault : Fault)
  | reservedBit
  | willQos (value : UInt8)
  /-- A quality of service or the retain flag of a will that is not there. -/
  | willFieldsWithoutWill
  | passwordWithoutUsername
  deriving DecidableEq, Repr

def ConnectFlagsError.message : ConnectFlagsError → String
  | wire fault => fault.message
  | reservedBit => "invalid reserved flags"
  | willQos value => "invalid will qos (" ++ toString value.toNat ++ ")"
  | willFieldsWithoutWill => "will qos or retain set without will flag"
  | passwordWithoutUsername => "password flag set without username flag"

/-- Why the flags of a CONNACK are refused. -/
inductive ConnackFlagsError
  | wire (fault : Fault)
  | reservedBits (value : UInt8)
  deriving DecidableEq, Repr

def ConnackFlagsError.message : ConnackFlagsError → String
  | wire fault => fault.message
  | reservedBits value =>
    let digits := hexDigits value.toNat
    "invalid reserved connack flags (0x" ++ (if digits.length < 2 then "0" ++ digits else digits) ++ ")"

/-- Why a protocol level is refused. -/
inductive LevelError
  | wire (fault : Fault)
  | unsupported (value : UInt8)
  deriving DecidableEq, Repr

def LevelError.message : LevelError → String
  | wire fault => fault.message
  | unsupported value => "invalid protocol level (" ++ toString value.toNat ++ ")"

/-- Why a field of the variable header is refused. -/
inductive FieldError
  | wire (fault : Fault)
  | protocolName (name : String)
  | protocolLevel (error : LevelError)
  | connectFlags (error : ConnectFlagsError)
  | connackFlags (error : ConnackFlagsError)
  | connectCode (value : UInt8)
  | zeroIdentifier
  deriving DecidableEq, Repr

def FieldError.message : FieldError → String
  | wire fault => fault.message
  | protocolName name => "invalid protocol name (" ++ name ++ ")"
  | protocolLevel error => error.message
  | connectFlags error => error.message
  | connackFlags error => error.message
  | connectCode value => "invalid connect return code (" ++ toString value.toNat ++ ")"
  | zeroIdentifier => "packet identifier must not be zero"

/-- Why a payload is refused. -/
inductive PayloadError
  | wire (fault : Fault)
  | topicName (text : String)
  | topicFilter (text : String)
  | qos
  | subscribeCode (value : UInt8)
  /-- A SUBSCRIBE or UNSUBSCRIBE whose size does not fit one topic filter. -/
  | filterCount (kind : Kind)
  deriving DecidableEq, Repr

def PayloadError.message : PayloadError → String
  | wire fault => fault.message
  | topicName text => TopicName.refusal text
  | topicFilter text => TopicFilter.refusal text
  | qos => "invalid quality of service"
  | subscribeCode value => SubscribeCode.refusal value
  | filterCount .unsubscribe => "unsubscribe must carry exactly one topic filter"
  | filterCount _ => "subscribe must carry exactly one topic filter"

/-- Why a packet of a known type is refused. -/
inductive PacketError
  | header (error : HeaderError)
  | field (error : FieldError)
  | payload (error : PayloadError)
  | wire (fault : Fault)
  | topicName (text : String)
  /-- A declared body size that the packet cannot have. -/
  | size (type : TypeByte) (remaining : UInt32)
  deriving DecidableEq, Repr

def PacketError.message : PacketError → String
  | header error => error.message
  | field error => error.message
  | payload error => error.message
  | wire fault => fault.message
  | topicName text => TopicName.refusal text
  | size type remaining => "invalid remaining length for " ++ type.text ++ " (" ++ toString remaining ++ ")"

/-- Why no packet could be read. -/
inductive ReadError
  | header (error : HeaderError)
  /-- A packet of a type number without a use, with its body. -/
  | reserved (code : Nat) (body : Bytes)
  | wire (fault : Fault)
  | packet (kind : Kind) (error : PacketError)
  deriving DecidableEq, Repr

def ReadError.message : ReadError → String
  | header error => error.message
  | reserved code body =>
    "reserved packet type (" ++ toString code ++ "), [u8, .." ++ toString body.length ++ "]"
  | wire fault => fault.message
  | packet _ error => error.message

end Mqtt
