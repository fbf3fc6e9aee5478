import Mqtt.Client.PacketIds
import Mqtt.Client.Handshake
import Mqtt.Client.KeepAlive
import Mqtt.Client.Subscriptions
import Mqtt.Client.Outgoing
import Mqtt.Client.Incoming

/-!
# Sessions

The state of the protocol on one connection: the handshake, the watch over the broker, and the
exchanges in both directions. `isOpen` says whether packets can still be queued.
-/
namespace Mqtt
open Wire

structure Session where
  ids : PacketIds
  /-- When the last packet was queued. -/
  lastSent : Time
  handshake : Handshake
  keepAlive : KeepAlive
  subscriptions : Subscriptions
  outgoing : Outgoing
  incoming : Incoming

namespace Session

def new (o : Options) (now : Time) : Session where
  ids := .start
  lastSent := now
  handshake := .new o.connackTimeout
  keepAlive := .new o.keepAliveSpan o.retryDelay
  subscriptions := .new o.policy
  outgoing := .new o.policy
  incoming := .new o.policy

def isAccepted (s : Session) : Bool := s.handshake.isAccepted

/-- Keep in mind when packets were queued; that moment never moves back. -/
def noteSent {ε α : Type} (a : Step Session ε α) (now : Time) : Step Session ε α :=
  if a.output.packets.isEmpty then a
  else { a with state := { a.state with lastSent := max a.state.lastSent now } }

/-- Whether an unfinished exchange has the identifier. -/
def isBusy (s : Session) (id : UInt16) : Bool :=
  s.outgoing.contains id || s.subscriptions.contains id

/-- The next identifier without an unfinished exchange, if there is one. -/
def nextId (s : Session) : UInt16 × Session :=
  let (id, ids) := s.ids.allocateFree s.isBusy 65535
  (id, { s with ids := ids })

/-- Send CONNECT. -/
def start (s : Session) (isOpen : Bool) (packet : ConnectPacket) (waiter : Option Waiter)
    (now : Time) : Step Session ClientError Unit :=
  noteSent ((s.handshake.start isOpen packet waiter now).inside fun h => { s with handshake := h }) now

/-! ## Calls -/

/-- Publish a message. Answers its identifier, which is 0 when it needs no acknowledgement. -/
def publish (s : Session) (isOpen : Bool) (topic : TopicName) (payload : Bytes) (qos : QoS)
    (retain : Bool) (now : Time) : Step Session ClientError UInt16 :=
  let (id, s) : UInt16 × Session := match qos with
    | .atMostOnce => (0, s)
    | .atLeastOnce | .exactlyOnce => s.nextId
  let packet := (PublishPacket.new topic (.of qos id) payload).setRetain retain
  let sent := (s.outgoing.publish isOpen packet now).inside fun m => { s with outgoing := m }
  noteSent (sent.andThen fun s _ => .value s id) now

/-- Make a request under the next identifier, and answer it. -/
def request (s : Session) (ask : Subscriptions → UInt16 → Step Subscriptions ClientError Unit)
    (now : Time) : Step Session ClientError UInt16 :=
  let (id, s) := s.nextId
  let sent := (ask s.subscriptions id).inside fun m => { s with subscriptions := m }
  noteSent (sent.andThen fun s _ => .value s id) now

def subscribe (s : Session) (isOpen : Bool) (filter : TopicFilter) (qos : QoS) (waiter : Waiter)
    (now : Time) : Step Session ClientError UInt16 :=
  s.request (fun m id => m.subscribe isOpen ⟨id, filter, qos⟩ waiter now) now

def unsubscribe (s : Session) (isOpen : Bool) (filter : TopicFilter) (waiter : Waiter)
    (now : Time) : Step Session ClientError UInt16 :=
  s.request (fun m id => m.unsubscribe isOpen ⟨id, filter⟩ waiter now) now

/-- Send DISCONNECT. -/
def disconnect (s : Session) (isOpen : Bool) (now : Time) : Step Session ClientError Unit :=
  noteSent (if isOpen then .emit s (.ofPackets [.ofBody .disconnect]) else .fail s .queueClosed) now

/-! ## Packets of the broker -/

/-- Hand a packet that came after CONNACK to the part that owns it. -/
def routeAccepted (s : Session) (isOpen : Bool) (p : Packet) (now : Time) :
    Step Session DisconnectReason Unit :=
  let owned {σ : Type} (a : Step σ ClientError Unit) (put : σ → Session) :
      Step Session DisconnectReason Unit := (a.inside put).mapError .ofError
  match p.body with
  | .publish b =>
    owned (s.incoming.publish isOpen ⟨p.header, b⟩ now) fun m => { s with incoming := m }
  | .pubrel id => owned (s.incoming.pubrel isOpen id) fun m => { s with incoming := m }
  | .puback id =>
    let (m, output) := s.outgoing.puback id
    .emit { s with outgoing := m } output
  | .pubrec id => owned (s.outgoing.pubrec isOpen id now) fun m => { s with outgoing := m }
  | .pubcomp id =>
    let (m, output) := s.outgoing.pubcomp id
    .emit { s with outgoing := m } output
  | .suback id code =>
    let (m, output) := s.subscriptions.suback id code
    .emit { s with subscriptions := m } output
  | .unsuback id =>
    let (m, output) := s.subscriptions.unsuback id
    .emit { s with subscriptions := m } output
  | .pingresp => .done { s with keepAlive := s.keepAlive.pingresp }
  | .connect _ | .connack _ _ | .subscribe _ | .unsubscribe _ | .pingreq | .disconnect =>
    .fail s (.protocolViolation (.fromServer (Packet.label p)))

/-- Handle a packet of the broker. Before CONNACK nothing else is allowed. -/
def route (s : Session) (isOpen : Bool) (p : Packet) (now : Time) :
    Step Session DisconnectReason Unit :=
  match p.body with
  | .connack sessionPresent code =>
    ((s.handshake.connack sessionPresent code).inside fun h => { s with handshake := h }).andThen
      fun s _ => .emit s (.ofEvent (.connected sessionPresent))
  | _ =>
    if s.isAccepted then noteSent (s.routeAccepted isOpen p now) now
    else .fail s (.protocolViolation (.beforeConnack (Packet.label p)))

/-! ## Time -/

/-- Let the exchanges look at the clock: subscriptions, outgoing messages, incoming messages. -/
def tickExchanges (s : Session) (isOpen : Bool) (now : Time) : Step Session ClientError Unit :=
  ((s.subscriptions.tick isOpen now).inside fun m => { s with subscriptions := m }).andThen
    fun s _ =>
      ((s.outgoing.tick isOpen now).inside fun m => { s with outgoing := m }).andThen fun s _ =>
        (s.incoming.tick isOpen now).inside fun m => { s with incoming := m }

/-- Let every part look at the clock. Before CONNACK only the handshake does; afterwards the
exchanges do as long as the broker is alive. -/
def tick (s : Session) (isOpen : Bool) (now : Time) : Step Session DisconnectReason Unit :=
  if !s.isAccepted then (s.handshake.tick now).inside fun h => { s with handshake := h }
  else
    let watched := (s.keepAlive.tick isOpen s.lastSent now).inside fun k => { s with keepAlive := k }
    noteSent ((watched.mapError .ofError).andThen fun s _ =>
      if s.keepAlive.brokerAlive then (s.tickExchanges isOpen now).mapError .ofError
      else .fail s .keepAliveTimeout) now

/-- The connection is gone: answer every call that waits and forget every exchange. -/
def reset (s : Session) : Session × Output :=
  let handshake := s.handshake.reset
  let (subscriptions, output) := s.subscriptions.reset
  ({ s with
      handshake := handshake.state
      subscriptions := subscriptions
      outgoing := s.outgoing.reset
      incoming := s.incoming.reset },
    handshake.output ++ output)

end Session

end Mqtt
