import Mqtt.Client.Output

/-!
# Keep-alive

After a period in which nothing was sent a PINGREQ goes out. A broker that does not answer it in
time is dead for good.
-/
namespace Mqtt

/-- A `period` of zero turns the watch off. -/
structure KeepAlive where
  period : Nat
  patience : Nat
  awaitingSince : Option Time
  brokerAlive : Bool
  deriving DecidableEq, Repr

namespace KeepAlive

def new (period patience : Nat) : KeepAlive := ⟨period, patience, none, true⟩

/-- Look at the clock; `lastSent` is when the last packet was queued. -/
def tick (k : KeepAlive) (isOpen : Bool) (lastSent now : Time) : Step KeepAlive ClientError Unit :=
  if k.period = 0 || !k.brokerAlive then .done k
  else
    match k.awaitingSince with
    | some since => .done (if k.patience < now - since then { k with brokerAlive := false } else k)
    | none =>
      if now - lastSent < k.period then .done k
      else if isOpen then
        .emit { k with awaitingSince := some now } (.ofPackets [.ofBody .pingreq])
      else .fail k .queueClosed

def pingresp (k : KeepAlive) : KeepAlive := { k with awaitingSince := none }

end KeepAlive

end Mqtt
