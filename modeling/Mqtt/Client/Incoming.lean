import Mqtt.Client.RetryTable

/-!
# Incoming messages

Messages that the broker publishes. A message that is delivered exactly once is kept until PUBREL
releases it; the others go to the application at once.
-/
namespace Mqtt

/-- A PUBACK to be written. -/
structure AckExchange where
  id : UInt16
  deriving DecidableEq, Repr

instance : Exchange AckExchange where
  id e := e.id
  packet e _ := .ofBody (.puback e.id)

/-- A message that the broker has not released yet. -/
structure HeldExchange where
  publish : PublishPacket
  id : UInt16
  deriving DecidableEq, Repr

instance : Exchange HeldExchange where
  id e := e.id
  packet e _ := .ofBody (.pubrec e.id)

/-- `acknowledged` only writes: nothing acknowledges a PUBACK, and none stays in it. -/
structure Incoming where
  acknowledged : RetryTable AckExchange
  awaitPubrel : RetryTable HeldExchange

namespace Incoming

def new (policy : RetryPolicy) : Incoming := ⟨.empty policy, .empty policy⟩

/-- Handle a PUBLISH. -/
def publish (m : Incoming) (isOpen : Bool) (p : PublishPacket) (now : Time) :
    Step Incoming ClientError Unit :=
  match p.delivery with
  | .atMostOnce => .emit m (.ofEvent (.received p))
  | .atLeastOnce id =>
    let ack := (m.acknowledged.enqueue isOpen ⟨id⟩ now).andThen fun t _ =>
      .emit (match t.finalize id with
        | some (_, t) => t
        | none => t) (.ofEvent (.received p))
    ack.inside fun t => { m with acknowledged := t }
  | .exactlyOnce id =>
    (m.awaitPubrel.enqueue isOpen ⟨p, id⟩ now).inside fun t => { m with awaitPubrel := t }

/-- Handle a PUBREL: release the message, and answer PUBCOMP even when there is none. -/
def pubrel (m : Incoming) (isOpen : Bool) (id : UInt16) : Step Incoming ClientError Unit :=
  let released : Step Incoming ClientError Unit := match m.awaitPubrel.finalize id with
    | some (c, t) => .emit { m with awaitPubrel := t } (.ofEvent (.received c.exchange.publish))
    | none => .done m
  released.andThen fun m _ =>
    if isOpen then .emit m (.ofPackets [.ofBody (.pubcomp id)]) else .fail m .queueClosed

/-- Send overdue packets again; messages that are never released are forgotten. -/
def tick (m : Incoming) (isOpen : Bool) (now : Time) : Step Incoming ClientError Unit :=
  let acknowledged := (m.acknowledged.tick isOpen now).andThen fun t _ => .done t
  (acknowledged.inside fun t => { m with acknowledged := t }).andThen fun m _ =>
    let awaitPubrel := (m.awaitPubrel.tick isOpen now).andThen fun t _ => .done t
    awaitPubrel.inside fun t => { m with awaitPubrel := t }

/-- The connection is gone: forget the messages that were not released. -/
def reset (m : Incoming) : Incoming := ⟨m.acknowledged.reset, m.awaitPubrel.reset⟩

end Incoming

end Mqtt
