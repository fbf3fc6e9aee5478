import Mqtt.Packet.Body

/-!
# Packets as text
-/
namespace Mqtt
open Wire

namespace Publish

/-- Plain payloads are shown as they are, others by their size. -/
def payloadText (p : Publish) : String :=
  match Text.plain? p.payload with
  | some s => s
  | none => toString p.payload.length ++ " bytes"

/-- The fields, with the payload as it is shown. -/
def fieldsText (p : Publish) (payload : String) : String :=
  let id := match p.id with
    | some id => toString id.toNat
    | none => "None"
  "topic_name: " ++ p.topic.text ++ ", packet_identifier: " ++ id ++ ", payload: " ++ payload

end Publish

/-- A header together with the fields behind it. -/
def FixedHeader.framedText (h : FixedHeader) (fields : String) : String :=
  "\x7bfixed_header: " ++ h.text ++ ", " ++ fields ++ "\x7d"

namespace Packet

/-- The name that the header gives, with the packet identifier if there is one. -/
def label (p : Packet) : String :=
  match id? p with
  | some id => p.header.type.text ++ "(" ++ toString id.toNat ++ ")"
  | none => p.header.type.text

/-- The fields of the packets that have a text of their own. -/
def fieldsText? (p : Packet) : Option String :=
  let named (id : UInt16) : String := "packet_identifier: " ++ toString id.toNat
  match p.body with
  | .publish b => some (b.fieldsText b.payloadText)
  | .puback id | .pubrec id | .pubrel id | .pubcomp id | .unsuback id => some (named id)
  | .subscribe s => some (named s.id ++ ", topic_filter: " ++ s.filter.text ++ ", qos: " ++ s.qos.text)
  | .suback id code => some (named id ++ ", return_code: " ++ code.text)
  | .unsubscribe u => some (named u.id ++ ", topic_filter: " ++ u.filter.text)
  | .connect _ | .connack _ _ | .pingreq | .pingresp | .disconnect => none

def text? (p : Packet) : Option String :=
  (fieldsText? p).map p.header.framedText

end Packet

end Mqtt
