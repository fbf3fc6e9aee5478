import Mqtt.Packet.Body

/-!
# Reading packets

The body of each packet type, and whole packets in two ways: `read` takes a packet from a source
that ends and never goes past its declared size; `await` gathers the whole body from a stream
first. A body may also be read under the header of another type, which is then believed. A reader
that fails tells how far it came.
-/
namespace Mqtt
open Wire

/-- Optional data, if it is announced. -/
def readIf {ε α : Type} (present : Bool) (read : Bytes → Except (Stop ε) (α × Bytes))
    (bs : Bytes) : Except (Stop ε) (Option α × Bytes) :=
  if present then (read bs).map fun (a, rest) => (some a, rest) else .ok (none, bs)

/-- A header whose type has a body of one size must declare that size. -/
def checkSize (h : FixedHeader) : Except PacketError Unit :=
  match h.type.kind.fixedSize? with
  | some n => if n = h.remaining then .ok () else .error (.size h.type h.remaining)
  | none => .ok ()

def TopicName.ReadError.toPayload : TopicName.ReadError → PayloadError
  | .wire fault => .wire fault
  | .invalid text => .topicName text

def TopicName.ReadError.toPacket : TopicName.ReadError → PacketError
  | .wire fault => .wire fault
  | .invalid text => .topicName text

def TopicFilter.ReadError.toPayload : TopicFilter.ReadError → PayloadError
  | .wire fault => .wire fault
  | .invalid text => .topicFilter text

namespace Connect

def readWill (flags : ConnectFlags) (bs : Bytes) : Except (Stop PayloadError) (Will × Bytes) := do
  let (topic, bs) ← (TopicName.read bs).mapError (.map TopicName.ReadError.toPayload)
  let (message, bs) ← (Binary.read bs).mapError (.map PayloadError.wire)
  match QoS.ofByte? flags.willQos with
  | some qos => .ok (⟨topic, message, qos, flags.willRetain⟩, bs)
  | none => .error ⟨.qos, bs⟩

/-- The fields that the flags announce, in their order. -/
def readPayload (flags : ConnectFlags) (keepAlive : UInt16) (bs : Bytes) :
    Except (Stop PayloadError) (Connect × Bytes) := do
  let (clientId, bs) ← (Text.read bs).mapError (.map PayloadError.wire)
  let (will, bs) ← readIf flags.will (readWill flags) bs
  let (username, bs) ←
    readIf flags.username (fun bs => (Text.read bs).mapError (.map PayloadError.wire)) bs
  let (password, bs) ←
    readIf flags.password (fun bs => (Binary.read bs).mapError (.map PayloadError.wire)) bs
  .ok (⟨clientId, flags.cleanSession, keepAlive, will, username, password⟩, bs)

def read (bs : Bytes) : Except (Stop PacketError) (Connect × Bytes) := do
  let (name, bs) ← (Text.read bs).mapError (.map PacketError.wire)
  if name ≠ Protocol.name then .error ⟨.field (.protocolName name), bs⟩
  let (_, bs) ← (Protocol.readLevel bs).mapError (.map fun e => .field (.protocolLevel e))
  let (flags, bs) ← (ConnectFlags.read bs).mapError (.map fun e => .field (.connectFlags e))
  let (keepAlive, bs) ← (readWord bs).mapError (.map PacketError.wire)
  (readPayload flags keepAlive bs).mapError (.map PacketError.payload)

end Connect

namespace Publish

/-- The identifier, which must not be zero, when the flags ask for one. -/
def readId (h : FixedHeader) (bs : Bytes) : Except (Stop PacketError) (Option UInt16 × Bytes) :=
  if h.type.flags.qos.val = 0 then .ok (none, bs)
  else do
    let (id, bs) ← (readWord bs).mapError (.map PacketError.wire)
    if id = 0 then .error ⟨.field .zeroIdentifier, bs⟩ else .ok (some id, bs)

/-- What the topic and the identifier leave of the declared size is payload. -/
def read (h : FixedHeader) (bs : Bytes) : Except (Stop PacketError) (Publish × Bytes) := do
  let (topic, bs) ← (TopicName.read bs).mapError (.map TopicName.ReadError.toPacket)
  let (id, bs) ← readId h bs
  let used := topic.width + widthOption (fun _ => 2) id
  if h.remaining < used then .error ⟨.size h.type h.remaining, bs⟩
  else do
    let (payload, bs) ←
      (Wire.readPayload (h.remaining - used).toNat bs).mapError (.map PacketError.wire)
    .ok (⟨topic, id, payload⟩, bs)

end Publish

namespace Subscribe

def readPayload (size : UInt32) (bs : Bytes) :
    Except (Stop PayloadError) ((TopicFilter × QoS) × Bytes) :=
  if size = 0 then .error ⟨.filterCount .subscribe, bs⟩
  else do
    let (filter, bs) ← (TopicFilter.read bs).mapError (.map TopicFilter.ReadError.toPayload)
    let (b, bs) ← (readByte bs).mapError (.map PayloadError.wire)
    match QoS.ofByte? b with
    | none => .error ⟨.qos, bs⟩
    | some qos =>
      if filter.width + 1 = size then .ok ((filter, qos), bs)
      else .error ⟨.filterCount .subscribe, bs⟩

def read (h : FixedHeader) (bs : Bytes) : Except (Stop PacketError) (Subscribe × Bytes) := do
  let (id, bs) ← (readWord bs).mapError (.map PacketError.wire)
  if h.remaining < 2 then .error ⟨.size h.type h.remaining, bs⟩
  else do
    let ((filter, qos), bs) ←
      (readPayload (h.remaining - 2) bs).mapError (.map PacketError.payload)
    .ok (⟨id, filter, qos⟩, bs)

end Subscribe

namespace Unsubscribe

def read (h : FixedHeader) (bs : Bytes) : Except (Stop PacketError) (Unsubscribe × Bytes) := do
  let (id, bs) ← (readWord bs).mapError (.map PacketError.wire)
  if h.remaining ≤ 2 then .error ⟨.payload (.filterCount .unsubscribe), bs⟩
  else do
    let (filter, bs) ← (TopicFilter.read bs).mapError (.map fun e => .payload e.toPayload)
    if 2 + filter.width = h.remaining then .ok (⟨id, filter⟩, bs)
    else .error ⟨.payload (.filterCount .unsubscribe), bs⟩

end Unsubscribe

namespace Body

/-- A body that is one packet identifier. -/
def readId (h : FixedHeader) (of : UInt16 → Body) (bs : Bytes) :
    Except (Stop PacketError) (Body × Bytes) := do
  let (_, bs) ← leaving bs (checkSize h)
  let (id, bs) ← (readWord bs).mapError (.map PacketError.wire)
  .ok (of id, bs)

def readConnack (h : FixedHeader) (bs : Bytes) : Except (Stop PacketError) (Body × Bytes) := do
  let (_, bs) ← leaving bs (checkSize h)
  let (sessionPresent, bs) ←
    (ConnackFlags.read bs).mapError (.map fun e => .field (.connackFlags e))
  let (code, bs) ← (ConnectCode.read bs).mapError (.map PacketError.field)
  .ok (.connack sessionPresent code, bs)

def readSuback (h : FixedHeader) (bs : Bytes) : Except (Stop PacketError) (Body × Bytes) :=
  if h.remaining ≠ 3 then .error ⟨.size h.type h.remaining, bs⟩
  else do
    let (id, bs) ← (readWord bs).mapError (.map PacketError.wire)
    let (b, bs) ← (readByte bs).mapError (.map PacketError.wire)
    match SubscribeCode.ofByte? b with
    | some code => .ok (.suback id code, bs)
    | none => .error ⟨.payload (.subscribeCode b), bs⟩

/-- A body without a field. -/
def readNothing (h : FixedHeader) (body : Body) (bs : Bytes) :
    Except (Stop PacketError) (Body × Bytes) :=
  leaving bs ((checkSize h).map fun _ => body)

/-- Read the body of a packet type under a header. -/
def read (kind : Kind) (h : FixedHeader) (bs : Bytes) : Except (Stop PacketError) (Body × Bytes) :=
  match kind with
  | .connect => (Connect.read bs).map fun (c, rest) => (connect c, rest)
  | .connack => readConnack h bs
  | .publish => (Publish.read h bs).map fun (p, rest) => (publish p, rest)
  | .puback => readId h puback bs
  | .pubrec => readId h pubrec bs
  | .pubrel => readId h pubrel bs
  | .pubcomp => readId h pubcomp bs
  | .subscribe => (Subscribe.read h bs).map fun (s, rest) => (subscribe s, rest)
  | .suback => readSuback h bs
  | .unsubscribe => (Unsubscribe.read h bs).map fun (u, rest) => (unsubscribe u, rest)
  | .unsuback => readId h unsuback bs
  | .pingreq => readNothing h pingreq bs
  | .pingresp => readNothing h pingresp bs
  | .disconnect => readNothing h disconnect bs

end Body

namespace Packet

/-- Read a body of one type under a header, with no limit but the end of the input. -/
def readBodyAs (kind : Kind) (h : FixedHeader) (bs : Bytes) :
    Except (Stop PacketError) (Packet × Bytes) :=
  (Body.read kind h bs).map fun (body, rest) => (⟨h, body⟩, rest)

/-- Read a packet of one type; the type its header names is not compared. -/
def readAs (kind : Kind) (bs : Bytes) : Except (Stop PacketError) (Packet × Bytes) := do
  let (h, bs) ← (FixedHeader.read bs).mapError (.map PacketError.header)
  readBodyAs kind h bs

/-- Read the body that a header announces. -/
def readBody (h : FixedHeader) (bs : Bytes) : Except (Stop ReadError) (Packet × Bytes) :=
  (readBodyAs h.type.kind h bs).mapError (.map fun e => .packet h.type.kind e)

/-- Read a body from the first `h.remaining` bytes; what it leaves of them, also when it fails,
stays in front of the rest of the input. -/
def readLimited (h : FixedHeader) (bs : Bytes) : Except (Stop ReadError) (Packet × Bytes) :=
  let n := h.remaining.toNat
  before (bs.drop n) (readBody h (bs.take n))

/-- Read one packet. The body of a reserved type is taken as far as it is there. -/
def read (bs : Bytes) : Except (Stop ReadError) (Packet × Bytes) := do
  let ((type, remaining), rest) ← (FixedHeader.readParts bs).mapError (.map ReadError.header)
  match FixedHeader.ofParts type remaining with
  | .ok h => readLimited h rest
  | .error (.reserved code _) =>
    .error ⟨.reserved code (rest.take remaining.toNat), rest.drop remaining.toNat⟩
  | .error e => .error ⟨.header e, rest⟩

/-- Await one packet: first its header, then all of its body, whether that can be read or not. -/
def await (bs : Bytes) : Except (Stop ReadError) (Packet × Bytes) := do
  let (h, bs) ← (FixedHeader.await bs).mapError (.map ReadError.header)
  let n := h.remaining.toNat
  if bs.length < n then .error ⟨.wire .shortBody, []⟩
  else leaving (bs.drop n) (answer (readBody h (bs.take n)))

end Packet

end Mqtt
