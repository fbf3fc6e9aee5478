import Mqtt.Client.Output

/-!
# The opening handshake

One CONNECT is sent on a connection and answered by one CONNACK within the time allowed. The
call that asked for the connection learns the outcome, once.
-/
namespace Mqtt

inductive HandshakeState
  | idle
  | awaiting (sentAt : Time)
  | accepted (sessionPresent : Bool)
  | failed
  deriving DecidableEq, Repr

structure Handshake where
  timeout : Nat
  state : HandshakeState
  waiter : Option Waiter
  deriving DecidableEq, Repr

namespace Handshake

def new (timeout : Nat) : Handshake := ⟨timeout, .idle, none⟩

def isAccepted (h : Handshake) : Bool :=
  match h.state with
  | .accepted _ => true
  | .idle | .awaiting _ | .failed => false

/-- Answer the call that waits, if it still does. -/
def answer (h : Handshake) (outcome : Except ClientError Reply) : Output :=
  .ofAnswers (h.waiter.toList.map fun w => ⟨w, outcome⟩)

/-- Send CONNECT for a call, or for none when the connection is a repeated one. -/
def start (h : Handshake) (isOpen : Bool) (packet : ConnectPacket) (waiter : Option Waiter)
    (now : Time) : Step Handshake ClientError Unit :=
  match h.state with
  | .idle =>
    if isOpen then .emit ⟨h.timeout, .awaiting now, waiter⟩ (.ofPackets [packet.toPacket])
    else .fail ⟨h.timeout, .idle, waiter⟩ .queueClosed
  | .awaiting _ | .accepted _ | .failed => .fail h .alreadyConnected

/-- Handle a CONNACK. Answers whether the broker kept a session; only the first CONNACK after
CONNECT is one. -/
def connack (h : Handshake) (sessionPresent : Bool) (code : ConnectCode) :
    Step Handshake DisconnectReason Unit :=
  match h.state with
  | .awaiting _ =>
    if code.isAccepted then
      .emit ⟨h.timeout, .accepted sessionPresent, none⟩ (h.answer (.ok (.connected sessionPresent)))
    else
      ⟨⟨h.timeout, .failed, none⟩, h.answer (.error (.connectionRefused code)),
        .error (.connectionRefused code)⟩
  | .idle | .accepted _ | .failed => .fail h (.protocolViolation .unexpectedConnack)

/-- Give up when the answer is late. -/
def tick (h : Handshake) (now : Time) : Step Handshake DisconnectReason Unit :=
  match h.state with
  | .awaiting sentAt =>
    if h.timeout < now - sentAt then
      ⟨⟨h.timeout, .failed, none⟩, h.answer (.error (.connackTimeout h.timeout)),
        .error .connackTimeout⟩
    else .done h
  | .idle | .accepted _ | .failed => .done h

/-- The connection is gone: a handshake that still waits has failed. -/
def reset (h : Handshake) : Step Handshake ClientError Unit :=
  let state : HandshakeState := match h.state with
    | .awaiting _ => .failed
    | state => state
  .emit ⟨h.timeout, state, none⟩ (h.answer (.error .connectionLost))

end Handshake

end Mqtt
