import Mqtt.Client.RetryTable

/-!
# Subscriptions

Requests to subscribe and to unsubscribe, in a table of requests for each. A request has a call that
waits: an acknowledgement answers it and raises an event; running out of attempts and losing the
connection only answer it.
-/
namespace Mqtt

/-! ## A table of requests -/

/-- An exchange whose call waits for the answer. -/
class Awaited (α : Type) extends Exchange α where
  waiter : α → Waiter

/-- Answer calls whose requests the connection has lost. -/
def Subscriptions.lost (waiters : List Waiter) : Output :=
  .ofAnswers (waiters.map fun w => ⟨w, .error .connectionLost⟩)

namespace RetryTable
variable {α : Type} [Awaited α]

/-- Send a request. The call whose request had its identifier waits no longer. -/
def ask (t : RetryTable α) (isOpen : Bool) (e : α) (now : Time) :
    Step (RetryTable α) ClientError Unit :=
  let replaced := (t.get? (Exchange.id e)).toList.map fun c => Awaited.waiter c.exchange
  (t.enqueue isOpen e now).andThen fun t _ => .emit t (Subscriptions.lost replaced)

/-- Handle an acknowledgement: the application is told of the request and the call is answered. One
that no request waits for is ignored. -/
def confirm (t : RetryTable α) (event : α → Event) (reply : Reply) (id : UInt16) :
    RetryTable α × Output :=
  match t.finalize id with
  | none => (t, {})
  | some (c, t) =>
    (t, { events := [event c.exchange]
          answers := [⟨Awaited.waiter c.exchange, .ok reply⟩] })

/-- What the call of a request is answered that ran out of attempts. -/
def lapsed (c : Context α) : Answer :=
  ⟨Awaited.waiter c.exchange, .error (.retriesExhausted (Exchange.id c.exchange))⟩

/-- Send overdue requests again and answer those that ran out of attempts, in a given order. -/
def renewInOrder (t : RetryTable α) (isOpen : Bool) (now : Time) (order : List UInt16) :
    Step (RetryTable α) ClientError Unit :=
  (t.tickInOrder isOpen now order).andThen fun t exhausted =>
    .emit t (.ofAnswers (exhausted.map lapsed))

/-- The same in the order of the identifiers. -/
def renew (t : RetryTable α) (isOpen : Bool) (now : Time) : Step (RetryTable α) ClientError Unit :=
  t.renewInOrder isOpen now t.ids

/-- The calls that wait, in the order of their identifiers. -/
def waiters (t : RetryTable α) : List Waiter := t.toList.map fun c => Awaited.waiter c.exchange

end RetryTable

/-! ## Both tables -/

structure SubscribeExchange where
  request : Subscribe
  waiter : Waiter
  deriving DecidableEq, Repr

instance : Awaited SubscribeExchange where
  id e := e.request.id
  packet e _ := .ofBody (.subscribe e.request)
  waiter e := e.waiter

structure UnsubscribeExchange where
  request : Unsubscribe
  waiter : Waiter
  deriving DecidableEq, Repr

instance : Awaited UnsubscribeExchange where
  id e := e.request.id
  packet e _ := .ofBody (.unsubscribe e.request)
  waiter e := e.waiter

structure Subscriptions where
  subscribes : RetryTable SubscribeExchange
  unsubscribes : RetryTable UnsubscribeExchange

namespace Subscriptions

def new (policy : RetryPolicy) : Subscriptions := ⟨.empty policy, .empty policy⟩

def subscribe (s : Subscriptions) (isOpen : Bool) (request : Subscribe) (waiter : Waiter)
    (now : Time) : Step Subscriptions ClientError Unit :=
  (s.subscribes.ask isOpen ⟨request, waiter⟩ now).inside fun t => { s with subscribes := t }

def unsubscribe (s : Subscriptions) (isOpen : Bool) (request : Unsubscribe) (waiter : Waiter)
    (now : Time) : Step Subscriptions ClientError Unit :=
  (s.unsubscribes.ask isOpen ⟨request, waiter⟩ now).inside fun t => { s with unsubscribes := t }

def suback (s : Subscriptions) (id : UInt16) (code : SubscribeCode) : Subscriptions × Output :=
  let (t, output) := s.subscribes.confirm (fun e => .subscribed id e.request.filter code)
    (.subscribed code) id
  ({ s with subscribes := t }, output)

def unsuback (s : Subscriptions) (id : UInt16) : Subscriptions × Output :=
  let (t, output) := s.unsubscribes.confirm (fun e => .unsubscribed id e.request.filter)
    .unsubscribed id
  ({ s with unsubscribes := t }, output)

/-- Look at both tables. -/
def tick (s : Subscriptions) (isOpen : Bool) (now : Time) : Step Subscriptions ClientError Unit :=
  ((s.subscribes.renew isOpen now).inside fun t => { s with subscribes := t }).andThen fun s _ =>
    (s.unsubscribes.renew isOpen now).inside fun t => { s with unsubscribes := t }

/-- Whether a request that waits has the identifier. -/
def contains (s : Subscriptions) (id : UInt16) : Bool :=
  s.subscribes.contains id || s.unsubscribes.contains id

/-- The connection is gone: answer every request that waits. -/
def reset (s : Subscriptions) : Subscriptions × Output :=
  (⟨s.subscribes.reset, s.unsubscribes.reset⟩, lost (s.subscribes.waiters ++ s.unsubscribes.waiters))

end Subscriptions

end Mqtt
