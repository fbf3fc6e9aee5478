import Mqtt.Packet.Show
import Mqtt.Client.Fault

/-!
# What a client puts out

A step of the client queues packets for the broker, raises events for the application and
answers calls that wait. A step also has a result; what it put out and the state it left count
even when the result is an error.
-/
namespace Mqtt

/-- What the application is told. -/
inductive Event
  | received (p : PublishPacket)
  /-- An outgoing message is done; its identifier is 0 when it needed no acknowledgement. -/
  | published (id : UInt16) (succeeded : Bool)
  | subscribed (id : UInt16) (filter : TopicFilter) (code : SubscribeCode)
  | unsubscribed (id : UInt16) (filter : TopicFilter)
  | connected (sessionPresent : Bool)
  | disconnected (reason : DisconnectReason)
  deriving DecidableEq, Repr

/-- The number of a call that waits for its answer. -/
abbrev Waiter := Nat

/-- What a waiting call is answered. -/
inductive Reply
  | connected (sessionPresent : Bool)
  | subscribed (code : SubscribeCode)
  | unsubscribed
  | disconnected
  deriving DecidableEq, Repr

structure Answer where
  waiter : Waiter
  outcome : Except ClientError Reply

/-- Packets, events and answers, each in their order. -/
structure Output where
  packets : List Packet := []
  events : List Event := []
  answers : List Answer := []

namespace Output

def append (a b : Output) : Output :=
  ⟨a.packets ++ b.packets, a.events ++ b.events, a.answers ++ b.answers⟩

instance : Append Output := ⟨append⟩

def ofPackets (ps : List Packet) : Output := { packets := ps }

def ofEvents (es : List Event) : Output := { events := es }

def ofAnswers (as : List Answer) : Output := { answers := as }

def ofEvent (e : Event) : Output := ofEvents [e]

@[simp] theorem packets_append (a b : Output) : (a ++ b).packets = a.packets ++ b.packets := rfl

@[simp] theorem events_append (a b : Output) : (a ++ b).events = a.events ++ b.events := rfl

@[simp] theorem answers_append (a b : Output) : (a ++ b).answers = a.answers ++ b.answers := rfl

end Output

/-- The state a step leaves, what it put out, and its result. -/
structure Step (σ ε α : Type) where
  state : σ
  output : Output
  result : Except ε α

namespace Step
variable {σ τ ε δ α β : Type}

def value (s : σ) (a : α) : Step σ ε α := ⟨s, {}, .ok a⟩

def done (s : σ) : Step σ ε Unit := ⟨s, {}, .ok ()⟩

def emit (s : σ) (output : Output) : Step σ ε Unit := ⟨s, output, .ok ()⟩

def fail (s : σ) (error : ε) : Step σ ε α := ⟨s, {}, .error error⟩

/-- Go on where the first step ended, unless it failed. -/
def andThen (a : Step σ ε α) (f : σ → α → Step σ ε β) : Step σ ε β :=
  match a.result with
  | .error e => ⟨a.state, a.output, .error e⟩
  | .ok x =>
    let b := f a.state x
    ⟨b.state, a.output ++ b.output, b.result⟩

/-- A step of a part as a step of the whole that holds it. -/
def inside (a : Step σ ε α) (put : σ → τ) : Step τ ε α := ⟨put a.state, a.output, a.result⟩

def mapError (a : Step σ ε α) (f : ε → δ) : Step σ δ α := ⟨a.state, a.output, a.result.mapError f⟩

end Step

end Mqtt
