import Mqtt.Stream
import Mqtt.Client.Session
import Mqtt.Client.Writer

/-!
# Connections

One transport to the broker with all that runs on it: the session, the queue of packets to be
written, the writer that empties it, and the reader that hands packets of the broker to the
session. Writer and reader each end with a reason, and whoever looks after the connection takes
the first of them.
-/
namespace Mqtt
open Wire

structure Connection where
  session : Session
  queue : Queue Packet
  writer : Writer
  reader : Stream
  /-- Whether the reader still runs. -/
  reading : Bool
  /-- Why writer and reader ended, the oldest reason first. -/
  reasons : List DisconnectReason

namespace Connection

/-- Packets can be queued as long as the writer takes them. -/
def isOpen (c : Connection) : Bool := !c.writer.isStopped

/-- Keep what a step of the session left, its packets at the end of the queue. -/
def after {ε α : Type} (c : Connection) (a : Step Session ε α) : Connection :=
  { c with session := a.state, queue := c.queue.pushAll a.output.packets }

/-- Open a connection and queue its CONNECT. -/
def start (o : Options) (waiter : Option Waiter) (now : Time) : Connection × Output :=
  let c : Connection := ⟨.new o now, .empty, .new, .empty, true, []⟩
  let a := c.session.start c.isOpen o.connectPacket waiter now
  (c.after a, a.output)

def tick (c : Connection) (now : Time) : Step Connection DisconnectReason Unit :=
  let a := c.session.tick c.isOpen now
  ⟨c.after a, a.output, a.result⟩

/-! ## Reading -/

/-- End the reader for a reason. -/
def endReading (c : Connection) (reason : DisconnectReason) : Connection :=
  { c with reading := false, reasons := c.reasons ++ [reason] }

/-- Handle one packet or error that the reader decoded. -/
def handle (c : Connection) (item : StreamItem) (now : Time) : Connection × Output :=
  match item with
  | .error (.wire fault) => (c.endReading (.transport fault.message), {})
  | .error e => (c.endReading (.protocolViolation (.unreadable e)), {})
  | .packet p =>
    let a := c.session.route c.isOpen p now
    let c := c.after a
    match a.result with
    | .ok _ => (c, a.output)
    | .error reason => (c.endReading reason, a.output)

/-- Handle what the reader can decode until it ends; `fuel` bounds how many packets. -/
def handleUpTo : (fuel : Nat) → Connection → Time → Connection × Output
  | 0, c, _ => (c, {})
  | fuel + 1, c, now =>
    if !c.reading then (c, {})
    else
      match c.reader.next with
      | (none, reader) => ({ c with reader := reader }, {})
      | (some item, reader) =>
        let (c, first) := handle { c with reader := reader } item now
        let (c, more) := handleUpTo fuel c now
        (c, first ++ more)

/-- Read bytes of the broker. Every packet takes a byte of the buffer or ends a wait for a body. -/
def read (c : Connection) (bs : Bytes) (now : Time) : Connection × Output :=
  let reader := c.reader.feed bs
  handleUpTo (reader.buffer.length + 2) { c with reader := reader } now

/-- The broker's side was closed: what is left over is the start of a packet. -/
def readEnd (c : Connection) : Connection :=
  if !c.reading then c
  else c.endReading (if c.reader.buffer.isEmpty then .transportClosed
    else .transport "bytes remaining on stream")

/-- Reading failed. -/
def readFault (c : Connection) (fault : TransportFault) : Connection :=
  if !c.reading then c else c.endReading (.transport fault.message)

/-! ## Writing -/

/-- Keep what a step of the writer left. -/
def afterWriter (c : Connection) (a : WriterStep) : Connection :=
  { c with writer := a.writer, reasons := c.reasons ++ a.reason.toList }

/-- Take the next packet from the queue if the writer is ready for one. -/
def takePacket? (c : Connection) : Option Connection :=
  if c.writer.phase != .idle then none
  else
    (c.queue.pop?).map fun (p, queue) =>
      { c with queue := queue }.afterWriter (c.writer.take p (!queue.isEmpty))

/-- Hand over the first `n` bytes that were encoded. -/
def handOver (c : Connection) (n : Nat) : Connection × Bytes :=
  let a := c.writer.handOver n
  (c.afterWriter a, a.handed)

/-- Writing failed. -/
def writeFault (c : Connection) (fault : TransportFault) : Connection :=
  c.afterWriter (c.writer.fail fault)

end Connection

end Mqtt
