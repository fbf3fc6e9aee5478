import Mqtt.Packet.Edit
import Mqtt.Packet.Show
import Mqtt.Wire.Runs

/-!
# Bulk payloads

A PUBLISH with its payload told in runs. What is asked of the packet is answered from everything in
front of the payload and from the runs; the payload is laid out when it has to be shown as text.
-/
namespace Mqtt
open Wire

/-- A PUBLISH with another payload than `packet` holds itself. -/
structure BulkPublish where
  packet : PublishPacket
  payload : Runs
  deriving DecidableEq, Repr

namespace BulkPublish

/-- The packet with the payload in it. -/
def laidOut (b : BulkPublish) : PublishPacket := b.packet.setPayload (Runs.bytes b.payload)

/-- The size of the body in 32 bits. -/
def bodyWidth (b : BulkPublish) : UInt32 :=
  b.packet.body.topic.width + widthOption (fun _ => 2) b.packet.body.id +
    (Runs.size b.payload).toUInt32

/-- The header and the fields in front of the payload. -/
def front (b : BulkPublish) : PublishPacket :=
  ⟨⟨b.packet.header.type, b.bodyWidth⟩, ⟨b.packet.body.topic, b.packet.body.id, []⟩⟩

def width (b : BulkPublish) : UInt32 := b.front.header.width + b.bodyWidth

def encode (b : BulkPublish) : Except Fault Runs :=
  (Packet.encode b.front.toPacket).map fun bs => Runs.ofBytes bs ++ b.payload

def payloadText (b : BulkPublish) : String :=
  if Runs.isPlain b.payload then b.laidOut.body.payloadText
  else toString (Runs.size b.payload) ++ " bytes"

def text (b : BulkPublish) : String :=
  b.front.header.framedText (b.front.body.fieldsText b.payloadText)

end BulkPublish

end Mqtt
