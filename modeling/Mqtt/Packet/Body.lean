import Mqtt.Packet.Flags

/-!
# Control packets

A packet is a fixed header and a body. The flag byte of a CONNECT is not kept: it says which
fields are there, and the fields are there to be asked. The quality of service of a PUBLISH is
told by its header and the presence of an identifier.
-/
namespace Mqtt
open Wire

/-- The message the broker publishes when the client vanishes. -/
structure Will where
  topic : TopicName
  message : Bytes
  qos : QoS
  retain : Bool
  deriving DecidableEq, Repr

structure Connect where
  clientId : String
  cleanSession : Bool
  keepAlive : UInt16
  will : Option Will
  username : Option String
  password : Option Bytes
  deriving DecidableEq, Repr

structure Publish where
  topic : TopicName
  id : Option UInt16
  payload : Bytes
  deriving DecidableEq, Repr

structure Subscribe where
  id : UInt16
  filter : TopicFilter
  qos : QoS
  deriving DecidableEq, Repr

structure Unsubscribe where
  id : UInt16
  filter : TopicFilter
  deriving DecidableEq, Repr

inductive Body
  | connect (c : Connect)
  | connack (sessionPresent : Bool) (code : ConnectCode)
  | publish (p : Publish)
  | puback (id : UInt16)
  | pubrec (id : UInt16)
  | pubrel (id : UInt16)
  | pubcomp (id : UInt16)
  | subscribe (s : Subscribe)
  | suback (id : UInt16) (code : SubscribeCode)
  | unsubscribe (u : Unsubscribe)
  | unsuback (id : UInt16)
  | pingreq
  | pingresp
  | disconnect
  deriving DecidableEq, Repr

/-- Something with the fixed header it travels under. -/
structure Framed (α : Type) where
  header : FixedHeader
  body : α
  deriving DecidableEq, Repr

abbrev Packet := Framed Body

abbrev ConnectPacket := Framed Connect

abbrev PublishPacket := Framed Publish

namespace Will

def write (w : Will) : Written := w.topic.write ++ Binary.write w.message

def width (w : Will) : UInt32 := w.topic.width + Binary.width w.message

end Will

/-- What is not there takes no room. -/
def writeOption {α : Type} (write : α → Written) : Option α → Written
  | none => .ok []
  | some a => write a

def widthOption {α : Type} (width : α → UInt32) : Option α → UInt32
  | none => 0
  | some a => width a

namespace Connect

def flags (c : Connect) : ConnectFlags where
  username := c.username.isSome
  password := c.password.isSome
  willRetain := c.will.any Will.retain
  willQos := match c.will with
    | some w => w.qos.toByte
    | none => 0
  will := c.will.isSome
  cleanSession := c.cleanSession

def write (c : Connect) : Written :=
  Text.write Protocol.name ++ Written.ok [Protocol.level, c.flags.toByte] ++
    Written.ok (word c.keepAlive) ++ Text.write c.clientId ++ writeOption Will.write c.will ++
    writeOption Text.write c.username ++ writeOption Binary.write c.password

def width (c : Connect) : UInt32 :=
  Text.width Protocol.name + 1 + 1 + 2 + (Text.width c.clientId + widthOption Will.width c.will +
    widthOption Text.width c.username + widthOption Binary.width c.password)

end Connect

namespace Publish

def write (p : Publish) : Written :=
  p.topic.write ++ writeOption (fun id => .ok (word id)) p.id ++ Written.ok p.payload

def width (p : Publish) : UInt32 :=
  p.topic.width + widthOption (fun _ => 2) p.id + size32 p.payload

end Publish

namespace Body

/-- The packet type a body belongs to. -/
def kind : Body → Kind
  | connect _ => .connect
  | connack _ _ => .connack
  | publish _ => .publish
  | puback _ => .puback
  | pubrec _ => .pubrec
  | pubrel _ => .pubrel
  | pubcomp _ => .pubcomp
  | subscribe _ => .subscribe
  | suback _ _ => .suback
  | unsubscribe _ => .unsubscribe
  | unsuback _ => .unsuback
  | pingreq => .pingreq
  | pingresp => .pingresp
  | disconnect => .disconnect

def write : Body → Written
  | connect c => c.write
  | connack sessionPresent code => .ok [ConnackFlags.toByte sessionPresent, code.toByte]
  | publish p => p.write
  | puback id | pubrec id | pubrel id | pubcomp id | unsuback id => .ok (word id)
  | subscribe s => Written.ok (word s.id) ++ s.filter.write ++ Written.ok [s.qos.toByte]
  | suback id code => .ok (word id ++ [code.toByte])
  | unsubscribe u => Written.ok (word u.id) ++ u.filter.write
  | pingreq | pingresp | disconnect => .ok []

/-- The size of a body, counted in 32 bits. -/
def width : Body → UInt32
  | connect c => c.width
  | connack _ _ => 2
  | publish p => p.width
  | puback _ | pubrec _ | pubrel _ | pubcomp _ | unsuback _ => 2
  | subscribe s => 2 + (s.filter.width + 1)
  | suback _ _ => 3
  | unsubscribe u => 2 + u.filter.width
  | pingreq | pingresp | disconnect => 0

end Body

namespace Framed

def map {α β : Type} (f : α → β) (p : Framed α) : Framed β := ⟨p.header, f p.body⟩

end Framed

namespace Packet

/-- A packet with the standard header of its type. -/
def ofBody (b : Body) : Packet := ⟨⟨.standard b.kind, b.width⟩, b⟩

def write (p : Packet) : Written := p.header.write ++ p.body.write

def width (p : Packet) : UInt32 := p.header.width + p.body.width

def encode (p : Packet) : Except Fault Bytes := (write p).toExcept

end Packet

namespace PublishPacket

def new (topic : TopicName) (delivery : Delivery) (payload : Bytes) : PublishPacket :=
  let body : Publish := ⟨topic, delivery.id?, payload⟩
  ⟨⟨⟨.publish, .publish delivery.qos⟩, body.width⟩, body⟩

def toPacket (p : PublishPacket) : Packet := p.map .publish

def flags (p : PublishPacket) : Flags := p.header.type.flags

/-- An identifier under the flags of quality 1 is acknowledged once, under any other flags
it belongs to an exactly-once delivery. -/
def delivery (p : PublishPacket) : Delivery :=
  match p.body.id with
  | none => .atMostOnce
  | some id => if p.flags.qos.val == 1 then .atLeastOnce id else .exactlyOnce id

end PublishPacket

namespace ConnectPacket

def new (clientId : String) : ConnectPacket :=
  let body : Connect := ⟨clientId, false, 0, none, none, none⟩
  ⟨⟨.standard .connect, body.width⟩, body⟩

def toPacket (p : ConnectPacket) : Packet := p.map .connect

end ConnectPacket

namespace Packet

/-- The packet identifier, of the packets that carry one. -/
def id? (p : Packet) : Option UInt16 :=
  match p.body with
  | .publish b => (PublishPacket.delivery ⟨p.header, b⟩).id?
  | .puback id | .pubrec id | .pubrel id | .pubcomp id | .suback id _ | .unsuback id => some id
  | .subscribe s => some s.id
  | .unsubscribe u => some u.id
  | .connect _ | .connack _ _ | .pingreq | .pingresp | .disconnect => none

end Packet

end Mqtt
