import Mqtt.Packet.Body

/-!
# Changing a packet

Each setter changes one field and keeps the header in step with the body.
-/
namespace Mqtt
open Wire

namespace PublishPacket

/-- The same packet with the size of its present body. -/
def resize (p : PublishPacket) : PublishPacket := ⟨⟨p.header.type, p.body.width⟩, p.body⟩

def setFlags (p : PublishPacket) (flags : Flags) : PublishPacket :=
  ⟨⟨⟨p.header.type.kind, flags⟩, p.header.remaining⟩, p.body⟩

/-- Mark a repetition; a message that is delivered at most once is never one. -/
def setDup (p : PublishPacket) (dup : Bool) : PublishPacket :=
  setFlags p ⟨dup && p.body.id.isSome, (flags p).qos, (flags p).retain⟩

def setRetain (p : PublishPacket) (retain : Bool) : PublishPacket :=
  setFlags p ⟨(flags p).dup, (flags p).qos, retain⟩

def setDelivery (p : PublishPacket) (d : Delivery) : PublishPacket :=
  let flags : Flags := ⟨(flags p).dup, d.qos.level, (flags p).retain⟩
  let p : PublishPacket := ⟨(setFlags p flags).header, ⟨p.body.topic, d.id?, p.body.payload⟩⟩
  resize (if d.id?.isNone then setDup p false else p)

def setTopic (p : PublishPacket) (topic : TopicName) : PublishPacket :=
  resize ⟨p.header, ⟨topic, p.body.id, p.body.payload⟩⟩

def setPayload (p : PublishPacket) (payload : Bytes) : PublishPacket :=
  resize ⟨p.header, ⟨p.body.topic, p.body.id, payload⟩⟩

end PublishPacket

namespace ConnectPacket

/-- The same header over another body, with that body's size. -/
def resized (p : ConnectPacket) (body : Connect) : ConnectPacket :=
  ⟨⟨p.header.type, body.width⟩, body⟩

def setKeepAlive (p : ConnectPacket) (seconds : UInt16) : ConnectPacket :=
  ⟨p.header, { p.body with keepAlive := seconds }⟩

def setCleanSession (p : ConnectPacket) (clean : Bool) : ConnectPacket :=
  ⟨p.header, { p.body with cleanSession := clean }⟩

def setClientId (p : ConnectPacket) (clientId : String) : ConnectPacket :=
  resized p { p.body with clientId := clientId }

def setUsername (p : ConnectPacket) (username : Option String) : ConnectPacket :=
  resized p { p.body with username := username }

def setPassword (p : ConnectPacket) (password : Option Bytes) : ConnectPacket :=
  resized p { p.body with password := password }

def setWill (p : ConnectPacket) (will : Option Will) : ConnectPacket :=
  resized p { p.body with will := will }

end ConnectPacket

namespace Packet

/-- Give a packet another identifier, if it carries one that can be changed on its own. -/
def setId? (p : Packet) (id : UInt16) : Option Packet :=
  match p.body with
  | .puback _ => some ⟨p.header, .puback id⟩
  | .pubrec _ => some ⟨p.header, .pubrec id⟩
  | .pubrel _ => some ⟨p.header, .pubrel id⟩
  | .pubcomp _ => some ⟨p.header, .pubcomp id⟩
  | .subscribe s => some ⟨p.header, .subscribe ⟨id, s.filter, s.qos⟩⟩
  | .suback _ code => some ⟨p.header, .suback id code⟩
  | .unsubscribe u => some ⟨p.header, .unsubscribe ⟨id, u.filter⟩⟩
  | .unsuback _ => some ⟨p.header, .unsuback id⟩
  | .connect _ | .connack _ _ | .publish _ | .pingreq | .pingresp | .disconnect => none

end Packet

end Mqtt
