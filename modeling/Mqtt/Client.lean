import Mqtt.Client.Lifecycle

/-!
# The client

What an application holds: its options, every request to connect it made with what became of it,
the one it can still end, and the one whose session takes its calls.
-/
namespace Mqtt
open Wire

structure Client where
  options : Options
  phases : Array Phase
  /-- The request to connect that `disconnect` ends. -/
  control : Option Nat
  /-- The request to connect whose session takes calls. -/
  current : Option Nat

/-- The largest size a packet can announce. -/
def maxBody : Nat := 268435455

namespace Client

/-- A client over checked options; `generated` stands in for an empty client id. -/
def new (o : Options) (generated : String) : Except ClientError Client :=
  o.validate.map fun _ => ⟨o.withClientId generated, #[], none, none⟩

def phase (c : Client) (i : Nat) : Phase := c.phases.getD i .ended

/-- The connection that takes calls. -/
def connection? (c : Client) : Option Connection := c.current.bind fun i => (c.phase i).connection?

def isConnected (c : Client) : Bool := c.connection?.any fun k => k.session.isAccepted

/-- Let one request to connect take a turn. A connection that begins takes the calls from then on;
when any connection ends, none does. -/
def turn (c : Client) (i : Nat) (f : Phase → Turn) : Client × Turn :=
  let before := c.phase i
  let t := f before
  let current := match before.connection?.isSome, t.phase.connection?.isSome with
    | false, true => some i
    | true, false => none
    | _, _ => c.current
  ({ c with phases := c.phases.setIfInBounds i t.phase, current := current }, t)

/-- Whether the request that `disconnect` would end is still under way. -/
def isActive (c : Client) : Bool := c.control.any fun i => !(c.phase i).isEnded

/-- Ask for a connection. -/
def connect (c : Client) (waiter : Waiter) : Step Client ClientError Unit :=
  if c.isActive then .fail c .alreadyConnected
  else
    let t := Phase.start waiter
    .emit { c with phases := c.phases.push t.phase, control := some c.phases.size } t.output

/-- Ask for the end of the connection. Answers the request to connect that is to end. -/
def disconnect (c : Client) : Step Client ClientError Nat :=
  match c.control with
  | some i =>
    let c := { c with control := none }
    if (c.phase i).isEnded then .fail c .notConnected else .value c i
  | none => .fail c .notConnected

/-- Make a call on the session that takes calls, if the broker accepted it. -/
def call {α : Type} (c : Client) (f : Session → Bool → Step Session ClientError α) :
    Step Client ClientError α :=
  match c.current, c.connection? with
  | some i, some k =>
    if k.session.isAccepted then
      let a := f k.session k.isOpen
      let phase := (c.phase i).withConnection (k.after a)
      ⟨{ c with phases := c.phases.setIfInBounds i phase }, a.output, a.result⟩
    else .fail c .notConnected
  | _, _ => .fail c .notConnected

/-- Publish a message. A topic that is none and a message that no packet can hold are refused
first. -/
def publish (c : Client) (topic : String) (payload : Bytes) (qos : QoS) (retain : Bool)
    (now : Time) : Step Client ClientError UInt16 :=
  match TopicName.ofText? topic with
  | none => .fail c (.topicName topic)
  | some name =>
    let idSize := if qos == .atMostOnce then 0 else 2
    if maxBody < 2 + topic.utf8ByteSize + idSize + payload.length then
      .fail c (.payloadTooLarge payload.length)
    else c.call fun s isOpen => s.publish isOpen name payload qos retain now

def subscribe (c : Client) (filter : String) (qos : QoS) (waiter : Waiter) (now : Time) :
    Step Client ClientError UInt16 :=
  match TopicFilter.ofText? filter with
  | none => .fail c (.topicFilter filter)
  | some filter => c.call fun s isOpen => s.subscribe isOpen filter qos waiter now

def unsubscribe (c : Client) (filter : String) (waiter : Waiter) (now : Time) :
    Step Client ClientError UInt16 :=
  match TopicFilter.ofText? filter with
  | none => .fail c (.topicFilter filter)
  | some filter => c.call fun s isOpen => s.unsubscribe isOpen filter waiter now

end Client

end Mqtt
