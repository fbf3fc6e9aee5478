import Mqtt.Scenario.World

/-!
# The order of a report

Answers of one moment are listed by the number of their call. Packets that one look at the clock
sends again, and messages that it gives up, are listed by their identifiers.
-/
namespace Mqtt.Scenario
open Wire

/-- Sort each run of neighbours that belong together. -/
def sortRuns {α : Type} (together : α → α → Bool) (le : α → α → Bool) (xs : List α) : List α :=
  (xs.splitBy together).flatMap fun run => run.mergeSort le

namespace Sighting

def id? : Sighting → Option UInt16
  | packet _ id _ _ => id
  | closed _ => none

def name : Sighting → String
  | packet _ _ name _ => name
  | closed _ => ""

def frame : Sighting → Bytes
  | packet _ _ _ frame => frame
  | closed _ => []

end Sighting

/-- Whether a broker saw two packets of one kind, with identifiers, at one moment on one link. -/
def areResentTogether (a b : Time × Nat × Sighting) : Bool :=
  a.1 == b.1 && a.2.1 == b.2.1 && a.2.2.id?.isSome && b.2.2.id?.isSome && a.2.2.name == b.2.2.name

/-- Packets with one identifier are told apart by their bytes. -/
def isResentBefore (a b : Time × Nat × Sighting) : Bool :=
  let x := a.2.2.id?.getD 0
  let y := b.2.2.id?.getD 0
  x < y || (x == y && a.2.2.frame ≤ b.2.2.frame)

def failedId? : Event → Option UInt16
  | .published id false => some id
  | _ => none

def haveFailedTogether (a b : Time × Event) : Bool :=
  a.1 == b.1 && (failedId? a.2).isSome && (failedId? b.2).isSome

def hasFailedBefore (a b : Time × Event) : Bool := (failedId? a.2).getD 0 ≤ (failedId? b.2).getD 0

namespace Log

/-- The answers by moment and number of the call. -/
def sortDone (l : Log) : Log :=
  { l with
    done := (l.done.toList.mergeSort fun a b => a.1 < b.1 || (a.1 == b.1 && a.2.1 ≤ b.2.1)).toArray }

/-- What the clock brought about, by identifiers. -/
def sortResent (l : Log) : Log :=
  { l with
    sent := (sortRuns areResentTogether isResentBefore l.sent.toList).toArray
    events := (sortRuns haveFailedTogether hasFailedBefore l.events.toList).toArray }

end Log

end Mqtt.Scenario
