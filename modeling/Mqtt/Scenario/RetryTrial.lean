import Mqtt.Client.RetryTable

/-!
# A retry table on its own

Actions on one retry table and the queue it writes to, without a session around it. A context
that was taken out can be kept aside and tracked again.
-/
namespace Mqtt.Scenario

/-- An exchange that is told apart by a tag; its packets count the attempts. -/
structure Sample where
  id : UInt16
  tag : String
  topic : TopicName
  deriving DecidableEq, Repr

instance : Exchange Sample where
  id s := s.id
  packet s attempt :=
    ((PublishPacket.new s.topic (.atLeastOnce s.id) (Wire.Text.toBytes (toString attempt))).setDup
      (1 < attempt)).toPacket

inductive TrialAction
  | enqueue (s : Sample)
  | tick
  | finalize (id : UInt16)
  | take (id : UInt16)
  /-- Keep a context aside that was never tracked. -/
  | keep (s : Sample)
  /-- Track the context that was kept aside. -/
  | requeue
  | contains (id : UInt16)
  | reset
  /-- Queue a PUBACK. -/
  | send (id : UInt16)
  | policy
  | text (name : String)
  /-- Nothing takes packets from the queue any more. -/
  | close

inductive TrialResult
  | nothing
  | ok
  | error (e : ClientError)
  | finalized (c : Context Sample)
  | context (c : Context Sample)
  | contexts (cs : List (Context Sample))
  | truth (b : Bool)
  | policy (p : RetryPolicy)
  | text (s : String)

/-- The table, the state of the queue, and the context that was kept aside. -/
structure Trial where
  table : RetryTable Sample
  isOpen : Bool := true
  lastSent : Time := 0
  kept : Option (Context Sample) := none

namespace Trial

/-- What a step of the table answers. -/
def resultOf (r : Except ClientError Unit) : TrialResult :=
  match r with
  | .ok _ => .ok
  | .error e => .error e

/-- Keep what a step of the table left and note when packets were queued. -/
def after {α : Type} (t : Trial) (now : Time) (a : Step (RetryTable Sample) ClientError α) : Trial :=
  { t with
    table := a.state
    lastSent := if a.output.packets.isEmpty then t.lastSent else max t.lastSent now }

def act (t : Trial) (now : Time) : TrialAction → Trial × TrialResult × List Packet
  | .enqueue s =>
    let a := t.table.enqueue t.isOpen s now
    (t.after now a, resultOf a.result, a.output.packets)
  | .tick =>
    let a := t.table.tick t.isOpen now
    (t.after now a, match a.result with
      | .ok cs => .contexts cs
      | .error e => .error e, a.output.packets)
  | .finalize id =>
    match t.table.finalize id with
    | some (c, table) => ({ t with table := table }, .finalized c, [])
    | none => (t, .nothing, [])
  | .take id =>
    match t.table.take id with
    | some (c, table) => ({ t with table := table, kept := some c }, .context c, [])
    | none => (t, .nothing, [])
  | .keep s =>
    let c := Context.new s now
    ({ t with kept := some c }, .context c, [])
  | .requeue =>
    match t.kept with
    | some c =>
      let a := t.table.enqueueContext t.isOpen c now
      ({ t with kept := none }.after now a, resultOf a.result, a.output.packets)
    | none => (t, .nothing, [])
  | .contains id => (t, .truth (t.table.contains id), [])
  | .reset => ({ t with table := t.table.reset }, .contexts t.table.toList, [])
  | .send id =>
    if t.isOpen then
      ({ t with lastSent := max t.lastSent now }, .ok, [.ofBody (.puback id)])
    else (t, .error .queueClosed, [])
  | .policy => (t, .policy t.table.policy, [])
  | .text name => (t, .text (t.table.text name), [])
  | .close => ({ t with isOpen := false }, .nothing, [])

end Trial

end Mqtt.Scenario
