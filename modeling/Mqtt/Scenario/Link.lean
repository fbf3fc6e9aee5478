import Mqtt.Client.Connection

/-!
# Links

A transport of a scenario: bytes under way between a connection and a scripted broker, which
reads everything unless it is told to pause. Each direction holds `capacity` bytes. Either side
can be closed, and the client's reads and writes can be made to fail.
-/
namespace Mqtt.Scenario
open Wire

structure Link where
  /-- The request to connect whose connection runs on the link. -/
  owner : Nat
  toBroker : Bytes := []
  toClient : Bytes := []
  /-- What the broker has still to write. -/
  outbox : Bytes := []
  /-- The start of a packet that the broker has not got all of. -/
  received : Bytes := []
  readFault : Option TransportFault := none
  writeFault : Option TransportFault := none
  /-- Whether the client waits for room. -/
  isBlocked : Bool := false
  /-- Whether the client writes nothing more. -/
  isShut : Bool := false
  /-- Whether the client's side is closed. -/
  isGone : Bool := false
  /-- Whether the broker's side is closed. -/
  isHungUp : Bool := false
  /-- Whether the broker saw the end of what the client writes. -/
  sawEnd : Bool := false

/-- What a broker sees: a packet, or the end, between two packets or inside one. -/
inductive Sighting
  | packet (label : String) (id : Option UInt16) (name : String) (frame : Bytes)
  | closed (isClean : Bool)

namespace Sighting

/-- A whole packet as the broker sees it. -/
def ofFrame (frame : Bytes) : Sighting :=
  match Packet.read frame with
  | .ok (p, _) => packet (Packet.label p) (Packet.id? p) p.header.type.text frame
  | .error _ => packet "" none "" frame

end Sighting

/-- The first packet of what was received, as bytes, and the rest. -/
def frame? (bs : Bytes) : Option (Bytes × Bytes) :=
  match FixedHeader.scan? bs with
  | some (.ok (_, size, used)) =>
    let frame := bs.take (used + size.toNat)
    if frame.length < used + size.toNat then none else some (frame, bs.drop (used + size.toNat))
  | some (.error _) | none => none

/-- The packets of what was received, as bytes, and the rest; `fuel` bounds how many. -/
def frames : (fuel : Nat) → Bytes → List Bytes × Bytes
  | 0, bs => ([], bs)
  | fuel + 1, bs =>
    match frame? bs with
    | none => ([], bs)
    | some (frame, rest) =>
      let (more, rest) := frames fuel rest
      (frame :: more, rest)

namespace Link

/-- Let the client's reader go on: it meets a fault, the bytes that came, or the end. Answers
nothing when there is nothing to read. -/
def feed? (l : Link) (c : Connection) (now : Time) : Option (Link × Connection × Output) :=
  if !c.reading then none
  else
    match l.readFault with
    | some fault => some (l, c.readFault fault, {})
    | none =>
      if !l.toClient.isEmpty then
        let (c, output) := c.read l.toClient now
        some ({ l with toClient := [] }, c, output)
      else if l.isHungUp then some (l, c.readEnd, {})
      else none

/-- Let the client's writer do one thing: hand bytes over, meet a fault, or take a packet. -/
def drainOnce? (capacity : Nat) (l : Link) (c : Connection) : Option (Link × Connection) :=
  if c.writer.needsRoom then
    let room := capacity - l.toBroker.length
    if l.isBlocked && room = 0 && !l.isHungUp then none
    else
      match l.writeFault with
      | some fault => some (l, c.writeFault fault)
      | none =>
        if l.isHungUp then some (l, c.writeFault .brokenPipe)
        else if room = 0 then some ({ l with isBlocked := true }, c)
        else
          let (c, handed) := c.handOver (min room c.writer.buffer.size)
          some ({ l with
            toBroker := l.toBroker ++ handed
            isBlocked := false
            isShut := l.isShut || c.writer.phase == .finished }, c)
  else (c.takePacket?).map fun c => (l, c)

/-- Let the client's writer go on until it waits; `fuel` bounds its steps. -/
def drainUpTo (capacity : Nat) : (fuel : Nat) → Link → Connection → Link × Connection
  | 0, l, c => (l, c)
  | fuel + 1, l, c =>
    match drainOnce? capacity l c with
    | none => (l, c)
    | some (l, c) => drainUpTo capacity fuel l c

/-- Let the client's writer go on until it waits. Every packet is taken once and handed over at
once or until the room runs out. -/
def drain? (capacity : Nat) (l : Link) (c : Connection) : Option (Link × Connection) :=
  (drainOnce? capacity l c).map fun (l, c) => drainUpTo capacity (3 * c.queue.size + 8) l c

/-- Let the broker read what came. Answers nothing when nothing did. -/
def receive? (l : Link) : Option (Link × List Sighting) :=
  let ends := l.isShut && !l.sawEnd
  if l.isHungUp || (l.toBroker.isEmpty && !ends) then none
  else
    let (whole, received) := frames l.toBroker.length (l.received ++ l.toBroker)
    some ({ l with toBroker := [], received := received, sawEnd := l.sawEnd || ends },
      whole.map .ofFrame ++ if ends then [.closed received.isEmpty] else [])

/-- Let the broker write as much as there is room for. Answers nothing when it has nothing to
write or no room. -/
def transmit? (capacity : Nat) (l : Link) : Option Link :=
  let room := capacity - l.toClient.length
  if l.isHungUp || l.isGone || l.outbox.isEmpty || room = 0 then none
  else some { l with toClient := l.toClient ++ l.outbox.take room, outbox := l.outbox.drop room }

/-- The client closes its side. -/
def close (l : Link) : Link := { l with isShut := true, isGone := true }

/-- The broker closes its side. -/
def hangUp (l : Link) : Link := { l with isHungUp := true, outbox := [] }

end Link

end Mqtt.Scenario
