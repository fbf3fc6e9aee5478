import Mqtt.Client.RetryTable

/-!
# Outgoing messages

Messages that the application publishes. A message that needs no acknowledgement is done when it
is queued. One that is delivered at least once waits for PUBACK. One that is delivered exactly
once waits for PUBREC and then, with PUBREL, for PUBCOMP.
-/
namespace Mqtt

/-- A message that waits for its first acknowledgement. -/
structure PublishExchange where
  publish : PublishPacket
  id : UInt16
  deriving DecidableEq, Repr

/-- Every attempt but the first is marked as a repetition. -/
instance : Exchange PublishExchange where
  id e := e.id
  packet e attempt := (e.publish.setDup (1 < attempt)).toPacket

/-- A message that the broker has and is asked to release. -/
structure ReleaseExchange where
  publish : PublishPacket
  id : UInt16
  deriving DecidableEq, Repr

instance : Exchange ReleaseExchange where
  id e := e.id
  packet e _ := .ofBody (.pubrel e.id)

structure Outgoing where
  awaitPuback : RetryTable PublishExchange
  awaitPubrec : RetryTable PublishExchange
  awaitPubcomp : RetryTable ReleaseExchange

namespace Outgoing

def new (policy : RetryPolicy) : Outgoing := ⟨.empty policy, .empty policy, .empty policy⟩

def publish (m : Outgoing) (isOpen : Bool) (p : PublishPacket) (now : Time) :
    Step Outgoing ClientError Unit :=
  match p.delivery with
  | .atMostOnce =>
    if isOpen then .emit m { packets := [p.toPacket], events := [.published 0 true] }
    else .fail m .queueClosed
  | .atLeastOnce id =>
    (m.awaitPuback.enqueue isOpen ⟨p, id⟩ now).inside fun t => { m with awaitPuback := t }
  | .exactlyOnce id =>
    (m.awaitPubrec.enqueue isOpen ⟨p, id⟩ now).inside fun t => { m with awaitPubrec := t }

/-- Handle a PUBACK; one that no message waits for is ignored. -/
def puback (m : Outgoing) (id : UInt16) : Outgoing × Output :=
  match m.awaitPuback.finalize id with
  | none => (m, {})
  | some (_, t) => ({ m with awaitPuback := t }, .ofEvent (.published id true))

/-- Handle a PUBREC: the message is to be released. A repeated PUBREC begins the release again,
and one that nothing waits for is ignored. -/
def pubrec (m : Outgoing) (isOpen : Bool) (id : UInt16) (now : Time) :
    Step Outgoing ClientError Unit :=
  match m.awaitPubrec.finalize id with
  | some (c, t) =>
    (m.awaitPubcomp.enqueue isOpen ⟨c.exchange.publish, c.exchange.id⟩ now).inside fun u =>
      { m with awaitPubrec := t, awaitPubcomp := u }
  | none =>
    match m.awaitPubcomp.take id with
    | some (c, t) => (t.enqueueContext isOpen c now).inside fun u => { m with awaitPubcomp := u }
    | none => .done m

/-- Handle a PUBCOMP; one that no message waits for is ignored. -/
def pubcomp (m : Outgoing) (id : UInt16) : Outgoing × Output :=
  match m.awaitPubcomp.finalize id with
  | none => (m, {})
  | some (_, t) => ({ m with awaitPubcomp := t }, .ofEvent (.published id true))

/-- Tell of the messages that ran out of attempts. -/
def failures {α : Type} [Exchange α] (exhausted : List (Context α)) : Output :=
  .ofEvents (exhausted.map fun c => .published (Exchange.id c.exchange) false)

/-- Send overdue packets again and give up those that ran out of attempts. -/
def tick (m : Outgoing) (isOpen : Bool) (now : Time) : Step Outgoing ClientError Unit :=
  let puback := (m.awaitPuback.tick isOpen now).andThen fun t es => .emit t (failures es)
  (puback.inside fun t => { m with awaitPuback := t }).andThen fun m _ =>
    let pubrec := (m.awaitPubrec.tick isOpen now).andThen fun t es => .emit t (failures es)
    (pubrec.inside fun t => { m with awaitPubrec := t }).andThen fun m _ =>
      let pubcomp := (m.awaitPubcomp.tick isOpen now).andThen fun t es => .emit t (failures es)
      pubcomp.inside fun t => { m with awaitPubcomp := t }

/-- Whether an unfinished message has the identifier. -/
def contains (m : Outgoing) (id : UInt16) : Bool :=
  m.awaitPuback.contains id || m.awaitPubrec.contains id || m.awaitPubcomp.contains id

def inFlight (m : Outgoing) : Nat :=
  m.awaitPuback.size + m.awaitPubrec.size + m.awaitPubcomp.size

/-- The connection is gone: forget the unfinished messages. -/
def reset (m : Outgoing) : Outgoing :=
  ⟨m.awaitPuback.reset, m.awaitPubrec.reset, m.awaitPubcomp.reset⟩

end Outgoing

end Mqtt
