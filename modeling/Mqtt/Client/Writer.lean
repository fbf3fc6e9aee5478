import Mqtt.Packet.Show
import Mqtt.Client.Fault
import Mqtt.Client.Queue

/-!
# Writing the queue to the transport

The writer takes packets from the queue one by one, encodes them into a buffer, and hands the
buffer over to the transport when the queue has run empty, when the buffer is full, and after
DISCONNECT, which is the last packet. A packet that cannot be encoded and a transport that fails
both stop it at once.
-/
namespace Mqtt
open Wire

inductive WriterPhase
  /-- The next packet may be taken. -/
  | idle
  /-- A packet that waits for a full buffer to be handed over, and whether it is handed over
  itself before the next one is taken. -/
  | holding (p : Packet) (flush : Bool)
  /-- The whole buffer is being handed over. -/
  | flushing (afterDisconnect : Bool)
  /-- DISCONNECT was handed over and the transport told that nothing follows. -/
  | finished
  | failed
  deriving DecidableEq, Repr

/-- The phase and the bytes that were encoded but not handed over. -/
structure Writer where
  phase : WriterPhase
  buffer : Array UInt8
  deriving DecidableEq, Repr

/-- What a step of the writer leaves: the writer, what was handed over, and why it stopped. -/
structure WriterStep where
  writer : Writer
  handed : Bytes
  reason : Option DisconnectReason

namespace Writer

def new : Writer := ⟨.idle, #[]⟩

def isStopped (w : Writer) : Bool := w.phase == .finished || w.phase == .failed

/-- How many bytes the buffer holds before it is handed over unasked. -/
def fullSize : Nat := 8192

def isDisconnect (p : Packet) : Bool := p.body == .disconnect

/-- Encode a packet into the buffer. -/
def encode (w : Writer) (p : Packet) (flush : Bool) : WriterStep :=
  let written := Packet.write p
  let buffer := w.buffer ++ written.bytes
  match written.fault with
  | some fault => ⟨⟨.failed, buffer⟩, [], some (.transport fault.message)⟩
  | none => ⟨⟨if flush then .flushing (isDisconnect p) else .idle, buffer⟩, [], none⟩

/-- Begin with a packet from the queue; `more` says whether the queue holds another one. -/
def take (w : Writer) (p : Packet) (more : Bool) : WriterStep :=
  let flush := isDisconnect p || !more
  if w.buffer.size < fullSize then w.encode p flush else ⟨⟨.holding p flush, w.buffer⟩, [], none⟩

/-- Hand over the first `n` bytes of the buffer and, when nothing is left of it, go on. -/
def handOver (w : Writer) (n : Nat) : WriterStep :=
  let rest : Writer := ⟨w.phase, w.buffer.extract n w.buffer.size⟩
  let step : WriterStep :=
    if !rest.buffer.isEmpty then ⟨rest, [], none⟩
    else
      match w.phase with
      | .holding p flush => rest.encode p flush
      | .flushing true => ⟨⟨.finished, rest.buffer⟩, [], none⟩
      | .flushing false => ⟨⟨.idle, rest.buffer⟩, [], none⟩
      | .idle | .finished | .failed => ⟨rest, [], none⟩
  ⟨step.writer, (w.buffer.extract 0 n).toList, step.reason⟩

/-- The transport failed. -/
def fail (w : Writer) (fault : TransportFault) : WriterStep :=
  ⟨⟨.failed, w.buffer⟩, [], some (.transport fault.message)⟩

/-- Whether bytes are to be handed over before anything else. -/
def needsRoom (w : Writer) : Bool :=
  match w.phase with
  | .holding _ _ | .flushing _ => true
  | .idle | .finished | .failed => false

end Writer

end Mqtt
