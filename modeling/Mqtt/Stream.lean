import Mqtt.Packet.Read

/-!
# Packets from a growing buffer

The incremental decoder takes one packet at a time from the front of a buffer that grows. It
remembers a header whose body is still to come. A header that is not all there stays in the
buffer and is looked at again; one that is wrong stays too, and is wrong again. A body that is
all there is taken from the buffer, whether it can be read or not.
-/
namespace Mqtt
open Wire

/-- What the decoder waits for: a header, or the body that a header announced. -/
inductive StreamState
  | header
  | body (type : FixedHeader.StreamType) (size : UInt32)
  deriving DecidableEq, Repr

/-- The decoder and the bytes it has not taken yet. -/
structure Stream where
  state : StreamState
  buffer : Bytes
  deriving DecidableEq, Repr

/-- One answer of the decoder: a packet or an error, or nothing yet. -/
inductive StreamItem
  | packet (p : Packet)
  | error (e : ReadError)
  deriving DecidableEq, Repr

namespace Stream

def empty : Stream := ⟨.header, []⟩

def feed (s : Stream) (bs : Bytes) : Stream := ⟨s.state, s.buffer ++ bs⟩

/-- Read the body of a packet in a stream, all of which is given. -/
def readBody (type : FixedHeader.StreamType) (size : UInt32) (body : Bytes) : StreamItem :=
  match type with
  | .standard type =>
    match answer (Packet.readBody ⟨type, size⟩ body) with
    | .ok p => .packet p
    | .error e => .error e
  | .reserved code => .error (.reserved code body)

/-- Take the announced body from the buffer when it is all there. -/
def nextBody (type : FixedHeader.StreamType) (size : UInt32) (buffer : Bytes) :
    Option StreamItem × Stream :=
  let n := size.toNat
  let body := buffer.take n
  if body.length < n then (none, ⟨.body type size, buffer⟩)
  else (some (readBody type size body), ⟨.header, buffer.drop n⟩)

/-- Take one packet. -/
def next (s : Stream) : Option StreamItem × Stream :=
  match s.state with
  | .body type size => nextBody type size s.buffer
  | .header =>
    match FixedHeader.scan? s.buffer with
    | none => (none, s)
    | some (.error e) => (some (.error (.header e)), s)
    | some (.ok (type, size, used)) => nextBody type size (s.buffer.drop used)

/-- Take packets until nothing or an error comes; `fuel` bounds how many. -/
def drainUpTo : (fuel : Nat) → Stream → List StreamItem × Stream
  | 0, s => ([], s)
  | fuel + 1, s =>
    match s.next with
    | (none, s) => ([], s)
    | (some (.error e), s) => ([.error e], s)
    | (some (.packet p), s) =>
      let (items, s) := drainUpTo fuel s
      (.packet p :: items, s)

/-- Take packets until nothing or an error comes. Every packet takes a byte of the buffer or ends
a wait for a body, so there is one more than bytes at most. -/
def drain (s : Stream) : List StreamItem × Stream := drainUpTo (s.buffer.length + 2) s

/-- Feed one chunk and take what can be taken. -/
def push (s : Stream) (chunk : Bytes) : List StreamItem × Stream := (s.feed chunk).drain

/-- Feed chunks one by one. -/
def run (s : Stream) : List Bytes → List (List StreamItem × Nat) × Stream
  | [] => ([], s)
  | chunk :: chunks =>
    let (items, s) := s.push chunk
    let (steps, s') := run s chunks
    ((items, s.buffer.length) :: steps, s')

end Stream

/-- Append an encoded packet to a buffer. What a refused packet had written stays there. -/
def Packet.appendTo (p : Packet) (buffer : Bytes) : Written :=
  let w := Packet.write p
  ⟨buffer ++ w.bytes, w.fault⟩

end Mqtt
