import Mqtt.Client
import Mqtt.Scenario.Link

/-!
# A world for a client

A client, a clock that moves only when told to, and the links that its transport opens as the
script says. `settle` lets everything happen that can happen at one instant; `advance` moves the
clock from one due moment to the next.
-/
namespace Mqtt.Scenario
open Wire

/-- What comes of opening the transport: at once, after a while, never, or a fault. -/
inductive DialOutcome
  | opens
  | opensAfter (ms : Nat)
  | hangs
  | fails (fault : TransportFault)
  deriving DecidableEq, Repr

/-- A transport that is being opened: for which request, until when, and with what outcome. -/
structure Dial where
  owner : Nat
  due : Option Time
  fault : Option TransportFault

/-- A call that the application makes and waits for. -/
inductive CallKind
  | connect
  | disconnect
  | subscribe
  | unsubscribe
  deriving DecidableEq, Repr

def CallKind.text : CallKind → String
  | connect => "connect"
  | disconnect => "disconnect"
  | subscribe => "subscribe"
  | unsubscribe => "unsubscribe"

/-- What happened, each with its moment. -/
structure Log where
  sent : Array (Time × Nat × Sighting) := #[]
  events : Array (Time × Event) := #[]
  done : Array (Time × Waiter × CallKind × Except ClientError Reply) := #[]
  connects : Array (Time × String) := #[]

structure World where
  client : Client
  now : Time := 0
  capacity : Nat
  links : Array Link := #[]
  /-- Whether the broker reads nothing for now, on any link. -/
  isPaused : Bool := false
  dials : List Dial := []
  /-- The outcomes of the next openings, each with its name. -/
  script : List (String × DialOutcome)
  /-- The calls that wait. -/
  pending : List (Waiter × CallKind) := []
  /-- Whether somebody listens to the events. -/
  isHeard : Bool
  log : Log := {}

namespace World

/-- Answer a call that waits; answers to others are lost. -/
def answer (w : World) (a : Answer) : World :=
  match w.pending.find? fun p => p.1 == a.waiter with
  | none => w
  | some (waiter, kind) =>
    { w with
      pending := w.pending.filter fun p => p.1 != waiter
      log := { w.log with done := w.log.done.push (w.now, waiter, kind, a.outcome) } }

/-- Tell the application what the client put out. -/
def tell (w : World) (o : Output) : World :=
  let events := if w.isHeard then o.events else []
  let log := { w.log with
    events := events.foldl (fun es e => es.push (w.now, e)) w.log.events }
  o.answers.foldl answer { w with log := log }

/-! ## Turns of the client -/

/-- Open the transport for a request to connect, with the next outcome of the script. -/
def dial (w : World) (owner : Nat) : World :=
  let (name, outcome) : String × DialOutcome := w.script.headD ("ok", .opens)
  let call : Dial := match outcome with
    | .opens => ⟨owner, some w.now, none⟩
    | .opensAfter ms => ⟨owner, some (w.now + ms), none⟩
    | .hangs => ⟨owner, none, none⟩
    | .fails fault => ⟨owner, some w.now, some fault⟩
  { w with
    script := w.script.tail
    dials := w.dials ++ [call]
    log := { w.log with connects := w.log.connects.push (w.now, name) } }

/-- Close the client's side of the link of a connection that ended. -/
def closeLink (w : World) (owner : Nat) : World :=
  { w with links := w.links.map fun l => if l.owner = owner then l.close else l }

/-- Let a request to connect take a turn. -/
def turn (w : World) (i : Nat) (f : Phase → Turn) : World :=
  let before := (w.client.phase i).connection?.isSome
  let (client, t) := w.client.turn i f
  let w := { w with client := client }.tell t.output
  let w := if before && t.phase.connection?.isNone then w.closeLink i else w
  if t.dials then w.dial i else w

/-- The transport was opened or not. -/
def finishDial (w : World) (d : Dial) : World :=
  match w.client.phase d.owner with
  | .opening _ | .reopening _ =>
    match d.fault with
    | some fault => w.turn d.owner (Phase.refused w.client.options fault w.now)
    | none =>
      { w with links := w.links.push { owner := d.owner } }.turn d.owner
        (Phase.opened w.client.options w.now)
  | _ => w

/-! ## Settling -/

/-- The connection that runs on a link. -/
def connection? (w : World) (l : Link) : Option Connection :=
  if l.isGone then none else (w.client.phase l.owner).connection?

/-- Put back a link and the state of its connection. -/
def put (w : World) (i : Nat) (l : Link) (c : Connection) : World :=
  let phase := (w.client.phase l.owner).withConnection c
  { w with
    links := w.links.setIfInBounds i l
    client := { w.client with phases := w.client.phases.setIfInBounds l.owner phase } }

/-- Let the reader of a link go on. -/
def feed? (w : World) (i : Nat) : Option World := do
  let l ← w.links[i]?
  let c ← w.connection? l
  let (l, c, output) ← l.feed? c w.now
  some ((w.put i l c).tell output)

/-- Let the writer of a link go on. -/
def drain? (w : World) (i : Nat) : Option World := do
  let l ← w.links[i]?
  let c ← w.connection? l
  let (l, c) ← l.drain? w.capacity c
  some (w.put i l c)

/-- Let the broker of a link read, unless it pauses. -/
def receive? (w : World) (i : Nat) : Option World := do
  let l ← if w.isPaused then none else w.links[i]?
  let (l, sightings) ← l.receive?
  let sent := sightings.foldl (fun s x => s.push (w.now, i, x)) w.log.sent
  some { w with links := w.links.setIfInBounds i l, log := { w.log with sent := sent } }

/-- Let the broker of a link write. -/
def transmit? (w : World) (i : Nat) : Option World := do
  let l ← w.links[i]?
  let l ← l.transmit? w.capacity
  some { w with links := w.links.setIfInBounds i l }

/-- Finish the openings that are due. -/
def finishDials? (w : World) : Option World :=
  let (due, others) := w.dials.partition fun d => d.due.any fun t => t ≤ w.now
  if due.isEmpty then none else some (due.foldl finishDial { w with dials := others })

/-- Let a request to connect look at its reader and writer. -/
def conclude? (w : World) (i : Nat) : Option World :=
  let isOver : Bool := match w.client.phase i with
    | .driving c _ => !c.reasons.isEmpty
    | .closing c _ _ => c.writer.isStopped
    | _ => false
  if isOver then some (w.turn i (Phase.observe w.client.options w.now)) else none

/-- Do something for each number below `n` where there is something to do, and tell whether there
was. -/
def each (n : Nat) (f : World → Nat → Option World) (w : World × Bool) : World × Bool :=
  n.fold (fun i _ w => match f w.1 i with
    | some v => (v, true)
    | none => w) w

/-- One round: readers, writers, brokers that read, openings, requests to connect. Brokers write
when all of these have come to rest. -/
def round (w : World) : World × Bool :=
  let n := w.links.size
  let w := each n receive? (each n drain? (each n feed? (w, false)))
  let w := match w.1.finishDials? with
    | some v => (v, true)
    | none => w
  let w := each w.1.client.phases.size conclude? w
  if w.2 then w else each n transmit? w

/-- Rounds until one finds nothing to do; `fuel` bounds how many. -/
def settleUpTo : (fuel : Nat) → World → World
  | 0, w => w
  | fuel + 1, w =>
    match w.round with
    | (w, true) => settleUpTo fuel w
    | (w, false) => w

/-- Let everything happen that can happen now. -/
def settle (w : World) : World := settleUpTo 1000000000 w

/-! ## Time -/

/-- The next moment at which something is due, up to a limit. -/
def nextDue? (w : World) (limit : Time) : Option Time :=
  let dues := w.client.phases.toList.filterMap Phase.due? ++ w.dials.filterMap Dial.due
  (dues.filter fun t => t ≤ limit).min?

/-- Move the clock to a moment, stopping wherever something is due; `fuel` bounds the stops. -/
def advanceUpTo : (fuel : Nat) → World → Time → World
  | 0, w, _ => w
  | fuel + 1, w, target =>
    match w.nextDue? target with
    | none => { w with now := target }
    | some t =>
      let w := { w with now := max w.now t }
      let w := w.client.phases.size.fold
        (fun i _ w => w.turn i (Phase.elapse w.client.options w.now)) w
      advanceUpTo fuel w.settle target

/-- Move the clock. Nothing is due twice at one moment. -/
def advance (w : World) (ms : Nat) : World := advanceUpTo (ms + 2) w (w.now + ms)

end World

end Mqtt.Scenario
