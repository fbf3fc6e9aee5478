/-!
# Time

Moments and spans are counted in whole milliseconds. The span since a later moment is zero.
-/
namespace Mqtt

/-- Milliseconds since the start of a run. -/
abbrev Time := Nat

namespace Span

/-- The digits of a fraction of `n` thousandths, without the zeros at its end. -/
def fractionText (n : Nat) : String :=
  if n = 0 then ""
  else
    let digits := [n / 100, n / 10 % 10, n % 10]
    let kept := (digits.reverse.dropWhile (· == 0)).reverse
    "." ++ String.join (kept.map toString)

/-- A span below a second is told in milliseconds, a longer one in seconds. -/
def text (ms : Nat) : String :=
  if ms = 0 then "0ns"
  else if ms < 1000 then toString ms ++ "ms"
  else toString (ms / 1000) ++ fractionText (ms % 1000) ++ "s"

end Span

end Mqtt
