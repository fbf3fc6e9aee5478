import Mqtt.Wire.Basic

/-!
# Variable-length integers

Base-128 digits, least significant first, a set top bit on every digit but the last, and at
most four of them.
-/
namespace Mqtt.Wire.VarInt

/-- The largest value four digits hold. -/
def maximum : UInt32 := 268435455

/-- How many digits `write` uses. -/
def width (value : UInt32) : UInt32 :=
  if 2097152 ≤ value then 4
  else if 16384 ≤ value then 3
  else if 128 ≤ value then 2
  else 1

/-- The digits of a number, with as few of them as it needs and no more than `limit`. -/
def digits : (limit : Nat) → Nat → Bytes
  | 0, _ => []
  | limit + 1, n =>
    if n < 128 then [UInt8.ofNat n] else UInt8.ofNat (n % 128 + 128) :: digits limit (n / 128)

def write (value : UInt32) : Written :=
  if maximum < value then .refuse (.integerTooLarge value) else .ok (digits 4 value.toNat)

/-- Read a number of at most `limit` digits; a digit after the last one allowed is not looked at. -/
def readDigits : (limit : Nat) → Bytes → Except (Stop Fault) (Nat × Bytes)
  | 0, bs => .error ⟨.overlongInteger, bs⟩
  | _ + 1, [] => .error ⟨.shortField, []⟩
  | limit + 1, b :: rest =>
    if b < 128 then .ok (b.toNat, rest)
    else do
      let (n, rest) ← readDigits limit rest
      .ok (b.toNat % 128 + 128 * n, rest)

def read (bs : Bytes) : Except (Stop Fault) (UInt32 × Bytes) := do
  let (n, rest) ← readDigits 4 bs
  .ok (n.toUInt32, rest)

end Mqtt.Wire.VarInt
