import Mqtt.QoS

/-!
# Packet identifiers

Identifiers are given out in turn, from 1 to 65535 and round again.
-/
namespace Mqtt

/-- The number that is tried next. -/
structure PacketIds where
  next : UInt16
  deriving DecidableEq, Repr

namespace PacketIds

def start : PacketIds := ⟨1⟩

/-- The next identifier; zero is passed over. -/
def allocate (ids : PacketIds) : UInt16 × PacketIds :=
  if ids.next = 0 then (1, ⟨2⟩) else (ids.next, ⟨ids.next + 1⟩)

/-- The first identifier that is not busy among the next `tries`, and the one after them when all
of them are. -/
def allocateFree (busy : UInt16 → Bool) : (tries : Nat) → PacketIds → UInt16 × PacketIds
  | 0, ids => ids.allocate
  | tries + 1, ids =>
    let (id, ids) := ids.allocate
    if busy id then allocateFree busy tries ids else (id, ids)

/-- The next `n` identifiers, after those that are already listed, newest first. -/
def allocateOnto : (n : Nat) → PacketIds → List UInt16 → List UInt16 × PacketIds
  | 0, ids, listed => (listed.reverse, ids)
  | n + 1, ids, listed =>
    let (id, ids) := ids.allocate
    allocateOnto n ids (id :: listed)

/-- The next `n` identifiers. -/
def allocateMany (ids : PacketIds) (n : Nat) : List UInt16 × PacketIds := allocateOnto n ids []

theorem allocate_ne_zero (ids : PacketIds) : ids.allocate.1 ≠ 0 := by
  unfold allocate
  split
  · decide
  · assumption

end PacketIds

end Mqtt
