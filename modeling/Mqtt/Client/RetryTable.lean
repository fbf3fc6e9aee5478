import Std.Data.TreeMap
import Mqtt.Client.Options
import Mqtt.Client.Output

/-!
# Exchanges that wait for an acknowledgement

A retry table writes an exchange when it is entered and keeps it until it is acknowledged, taken
out, or written as often as the policy allows without an answer. That an exchange is in the table
means that it was sent and is not acknowledged.
-/
namespace Mqtt

/-- What can be sent again: it has an identifier and a packet for each attempt, counted from 1. -/
class Exchange (α : Type) where
  id : α → UInt16
  packet : α → Nat → Packet

/-- An exchange and how far it came. -/
structure Context (α : Type) where
  exchange : α
  attempt : Nat
  lastSent : Time
  finished : Bool
  succeeded : Bool
  deriving DecidableEq, Repr

namespace Context
variable {α : Type}

def new (exchange : α) (now : Time) : Context α := ⟨exchange, 0, now, false, false⟩

/-- Begin with the first attempt. -/
def restart (c : Context α) (now : Time) : Context α := ⟨c.exchange, 1, now, false, false⟩

/-- One attempt more. -/
def resend (c : Context α) (now : Time) : Context α :=
  { c with attempt := c.attempt + 1, lastSent := now }

def finish (c : Context α) (succeeded : Bool) : Context α :=
  { c with finished := true, succeeded := succeeded }

end Context

abbrev Contexts (α : Type) := Std.TreeMap UInt16 (Context α)

structure RetryTable (α : Type) where
  policy : RetryPolicy
  contexts : Contexts α

/-- One pass over a table: its contexts so far, what was sent and who ran out of attempts, both
newest first, and whether a packet could not be queued. -/
structure Sweep (α : Type) where
  contexts : Contexts α
  sent : List Packet
  exhausted : List UInt16
  blocked : Bool

namespace RetryTable
variable {α : Type} [Exchange α]

def empty (policy : RetryPolicy) : RetryTable α := ⟨policy, ∅⟩

def get? (t : RetryTable α) (id : UInt16) : Option (Context α) := t.contexts[id]?

def contains (t : RetryTable α) (id : UInt16) : Bool := t.contexts.contains id

def size (t : RetryTable α) : Nat := t.contexts.size

def ids (t : RetryTable α) : List UInt16 := t.contexts.keys

def erase (t : RetryTable α) (id : UInt16) : RetryTable α := ⟨t.policy, t.contexts.erase id⟩

/-- Track a context again from its first attempt, which is written before anything is tracked. -/
def enqueueContext (t : RetryTable α) (isOpen : Bool) (c : Context α) (now : Time) :
    Step (RetryTable α) ClientError Unit :=
  if isOpen then
    .emit ⟨t.policy, t.contexts.insert (Exchange.id c.exchange) (c.restart now)⟩
      (.ofPackets [Exchange.packet c.exchange 1])
  else .fail t .queueClosed

/-- Write the first attempt of an exchange and track it. -/
def enqueue (t : RetryTable α) (isOpen : Bool) (exchange : α) (now : Time) :
    Step (RetryTable α) ClientError Unit :=
  t.enqueueContext isOpen (.new exchange now) now

/-- Look at one exchange: leave it while its wait lasts, give it up after its last attempt, and
write it once more otherwise. -/
def visit (policy : RetryPolicy) (isOpen : Bool) (now : Time) (s : Sweep α) (id : UInt16) : Sweep α :=
  if s.blocked then s
  else
    match s.contexts[id]? with
    | none => s
    | some c =>
      if now - c.lastSent ≤ policy.delay then s
      else if policy.limit ≤ c.attempt then
        { s with
          contexts := s.contexts.insert id (c.finish false)
          exhausted := id :: s.exhausted }
      else
        let c := c.resend now
        let contexts := s.contexts.insert id c
        if isOpen then
          { s with contexts := contexts, sent := Exchange.packet c.exchange c.attempt :: s.sent }
        else { s with contexts := contexts, blocked := true }

def sweep (t : RetryTable α) (isOpen : Bool) (now : Time) (order : List UInt16) : Sweep α :=
  order.foldl (visit t.policy isOpen now) ⟨t.contexts, [], [], false⟩

/-- One pass over the table in a given order. Answers the exchanges that ran out of attempts,
which leave the table; when a packet cannot be queued the pass stops where it is. -/
def tickInOrder (t : RetryTable α) (isOpen : Bool) (now : Time) (order : List UInt16) :
    Step (RetryTable α) ClientError (List (Context α)) :=
  let s := t.sweep isOpen now order
  if s.blocked then ⟨⟨t.policy, s.contexts⟩, .ofPackets s.sent.reverse, .error .queueClosed⟩
  else
    let exhausted := s.exhausted.reverse
    ⟨⟨t.policy, exhausted.foldl (fun m id => m.erase id) s.contexts⟩, .ofPackets s.sent.reverse,
      .ok (exhausted.filterMap fun id => s.contexts[id]?)⟩

/-- One pass in the order of the identifiers. -/
def tick (t : RetryTable α) (isOpen : Bool) (now : Time) :
    Step (RetryTable α) ClientError (List (Context α)) :=
  t.tickInOrder isOpen now t.ids

/-- Take out the exchange that an acknowledgement ends. -/
def finalize (t : RetryTable α) (id : UInt16) : Option (Context α × RetryTable α) :=
  (t.get? id).map fun c => (c.finish true, t.erase id)

/-- Take an exchange out as it is. -/
def take (t : RetryTable α) (id : UInt16) : Option (Context α × RetryTable α) :=
  (t.get? id).map fun c => (c, t.erase id)

/-- Forget every exchange. -/
def reset (t : RetryTable α) : RetryTable α := empty t.policy

/-- The contexts in the order of their identifiers. -/
def toList (t : RetryTable α) : List (Context α) := t.contexts.values

/-- A table under a name, as text. -/
def text (t : RetryTable α) (name : String) : String :=
  "ResendTracker \x7b name: \"" ++ name ++ "\", policy: " ++ t.policy.text ++ ", outstanding: " ++
    toString t.size ++ " \x7d"

/-! ## What is tracked -/

omit [Exchange α] in
@[simp] theorem get?_empty (policy : RetryPolicy) (id : UInt16) :
    (empty policy : RetryTable α).get? id = none := by
  simp [get?, empty]

omit [Exchange α] in
@[simp] theorem get?_erase (t : RetryTable α) (id other : UInt16) :
    (t.erase id).get? other = if id = other then none else t.get? other := by
  simp [get?, erase, Std.TreeMap.getElem?_erase]

omit [Exchange α] in
theorem contains_eq (t : RetryTable α) (id : UInt16) : t.contains id = (t.get? id).isSome := by
  simp [contains, get?]

theorem get?_enqueueContext (t : RetryTable α) (c : Context α) (now : Time) (id : UInt16) :
    (t.enqueueContext true c now).state.get? id =
      if Exchange.id c.exchange = id then some (c.restart now) else t.get? id := by
  simp [get?, enqueueContext, Step.emit, Std.TreeMap.getElem?_insert]

end RetryTable

end Mqtt
