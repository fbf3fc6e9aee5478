import Mqtt.Scenario.Order

/-!
# Scenarios

What an application and a broker do, one action after the other, and what each of them brings
about before the next one begins.
-/
namespace Mqtt.Scenario
open Wire

inductive Action
  | connect
  | disconnect
  | subscribe (filter : String) (qos : QoS) (waits : Bool)
  | unsubscribe (filter : String) (waits : Bool)
  | publish (topic : String) (payload : Bytes) (qos : QoS) (retain : Bool)
  /-- Publish empty messages to the topic `b`, which the broker may acknowledge. -/
  | publishMany (count : Nat) (isAcknowledged : Bool)
  | options
  | advance (ms : Nat)
  | send (bytes : Bytes) (link : Option Nat)
  | hangUp
  | pause
  | resume
  | failRead (fault : TransportFault)
  | failWrite (fault : TransportFault)
  /-- The application drops its client. -/
  | drop

/-- What an action answers by itself. -/
inductive Result
  | started
  | ok
  | closed
  | noConnection
  | dropped
  | packetId (id : UInt16)
  | clientId (id : String)
  | error (e : ClientError)

/-- What an action brought about. -/
structure Report where
  result : Result
  now : Time
  /-- Whether the client is connected, unless it was dropped. -/
  isConnected : Option Bool
  log : Log

/-- A world and whether the application still has its client. -/
structure State where
  world : World
  hasClient : Bool := true

namespace World

/-- Make a call of the client and tell what it put out. -/
def call {α : Type} (w : World) (a : Step Client ClientError α) : World × Except ClientError α :=
  ({ w with client := a.state }.tell a.output, a.result)

/-- Begin a call that waits; one that fails at once is answered at once. -/
def begin {α : Type} (w : World) (index : Waiter) (kind : CallKind)
    (f : Client → Step Client ClientError α) : World × Except ClientError α :=
  let (w, r) := { w with pending := w.pending ++ [(index, kind)] }.call (f w.client)
  match r with
  | .ok a => (w, .ok a)
  | .error e => (w.answer ⟨index, .error e⟩, .error e)

def answerId (r : Except ClientError UInt16) : Result :=
  match r with
  | .ok id => .packetId id
  | .error e => .error e

/-- Publish up to a thousand messages. Answers their identifiers, newest first, and the error that
stopped it. -/
def publishBatch : (count : Nat) → World → List UInt16 → World × List UInt16 × Option ClientError
  | 0, w, ids => (w, ids, none)
  | count + 1, w, ids =>
    match w.call (w.client.publish "b" [] .atLeastOnce false w.now) with
    | (w, .ok id) => publishBatch count w (id :: ids)
    | (w, .error e) => (w, ids, some e)

/-- Change the last link. -/
def onLink (w : World) (f : Link → Link) : World × Result :=
  if w.links.isEmpty then (w, .noConnection)
  else ({ w with links := w.links.modify (w.links.size - 1) f }, .ok)

/-- Let the broker of a link write bytes. -/
def send (w : World) (bytes : Bytes) (i : Nat) : World × Result :=
  match w.links[i]? with
  | none => (w, .noConnection)
  | some l =>
    if l.isGone || l.isHungUp then (w, .closed)
    else
      let w := { w with
        links := w.links.setIfInBounds i { l with outbox := l.outbox ++ bytes } }.settle
      (w, if w.links[i]?.any fun l => !l.outbox.isEmpty && l.isGone then .closed else .ok)

/-- Publish many messages, a thousand at a time, each batch acknowledged when it was sent. -/
def publishMany (isAcknowledged : Bool) : (batches : Nat) → (count : Nat) → World → UInt16 → World × Result
  | 0, _, w, last => (w, .packetId last)
  | batches + 1, count, w, last =>
    match publishBatch (min count 1000) w [] with
    | (w, _, some e) => (w.settle, .error e)
    | (w, ids, none) =>
      let w := w.settle
      let acks := ids.reverse.flatMap fun id => (Packet.write (.ofBody (.puback id))).bytes
      let w := if isAcknowledged then (w.send acks (w.links.size - 1)).1 else w
      publishMany isAcknowledged batches (count - 1000) w (ids.headD last)

end World

namespace State

/-- An action of the application, by its number, while it has a client. -/
def actClient (w : World) (index : Waiter) : Action → World × Result
  | .connect =>
    match w.begin index .connect (Client.connect · index) with
    | (w, .ok _) => (w.dial (w.client.phases.size - 1), .started)
    | (w, .error _) => (w, .started)
  | .disconnect =>
    match w.begin index .disconnect Client.disconnect with
    | (w, .ok i) => (w.turn i (Phase.disconnect w.client.options (some index) w.now), .started)
    | (w, .error _) => (w, .started)
  | .subscribe filter qos waits =>
    let f (c : Client) : Step Client ClientError UInt16 := c.subscribe filter qos index w.now
    if waits then ((w.begin index .subscribe f).1, .started)
    else
      let (w, r) := w.call (f w.client)
      (w, World.answerId r)
  | .unsubscribe filter waits =>
    let f (c : Client) : Step Client ClientError UInt16 := c.unsubscribe filter index w.now
    if waits then ((w.begin index .unsubscribe f).1, .started)
    else
      let (w, r) := w.call (f w.client)
      (w, World.answerId r)
  | .publish topic payload qos retain =>
    let (w, r) := w.call (w.client.publish topic payload qos retain w.now)
    (w, World.answerId r)
  | .publishMany count isAcknowledged =>
    let log := w.log
    let (w, r) := w.publishMany isAcknowledged ((count + 999) / 1000) count 0
    ({ w with log := log }, r)
  | .options => (w, .clientId w.client.options.clientId)
  | _ => (w, .ok)

/-- An action of the broker, or the passing of time. -/
def actWorld (w : World) : Action → World × Result
  | .advance ms => (w.advance ms, .ok)
  | .send bytes link => w.send bytes (link.getD (w.links.size - 1))
  | .hangUp => w.onLink Link.hangUp
  | .pause => ({ w with isPaused := true }, .ok)
  | .resume => ({ w with isPaused := false }, .ok)
  | .failRead fault => w.onLink fun l => { l with readFault := some fault }
  | .failWrite fault => w.onLink fun l => { l with writeFault := some fault }
  | _ => (w, .ok)

/-- The application drops its client: no call waits any more, and the connection that could still
be ended is. -/
def dropClient (w : World) : World :=
  let control := w.client.control
  let w := { w with pending := [], client := { w.client with control := none } }
  match control with
  | some i => w.turn i (Phase.disconnect w.client.options none w.now)
  | none => w

def act (s : State) (index : Waiter) (a : Action) : State × Result :=
  match a with
  | .advance _ | .send _ _ | .hangUp | .pause | .resume | .failRead _ | .failWrite _ =>
    let (w, r) := actWorld s.world a
    ({ s with world := w }, r)
  | .drop => ({ world := if s.hasClient then dropClient s.world else s.world, hasClient := false }, .ok)
  | .connect | .disconnect | .subscribe _ _ _ | .unsubscribe _ _ | .publish _ _ _ _
  | .publishMany _ _ | .options =>
    if s.hasClient then
      let (w, r) := actClient s.world index a
      ({ s with world := w }, r)
    else (s, .dropped)

/-- Do an action, let everything happen that it brings about, and report it. -/
def step (s : State) (index : Waiter) (a : Action) : State × Report :=
  let (s, result) := s.act index a
  let w := s.world.settle
  let isConnected := if s.hasClient then some w.client.isConnected else none
  let log := match a with
    | .advance _ => w.log.sortDone.sortResent
    | _ => w.log.sortDone
  ({ s with world := { w with log := {} } }, ⟨result, w.now, isConnected, log⟩)

/-- Do actions one by one, the first under the number `index`. -/
def runFrom (s : State) (index : Waiter) : List Action → List Report
  | [] => []
  | a :: as =>
    let (s, report) := s.step index a
    report :: runFrom s (index + 1) as

end State

/-- How a scenario is set up. -/
structure Setup where
  options : Options
  /-- The client id that stands in for an empty one. -/
  generatedId : String
  script : List (String × DialOutcome)
  capacity : Nat
  isHeard : Bool

/-- Run a scenario from the start. -/
def run (s : Setup) (actions : List Action) : Except ClientError (List Report) :=
  (Client.new s.options s.generatedId).map fun client =>
    State.runFrom ⟨{ client, capacity := s.capacity, script := s.script, isHeard := s.isHeard }, true⟩
      0 actions

end Mqtt.Scenario
