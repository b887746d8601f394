import NodeGroups.Text.Binary64
import NodeGroups.Text.Natural

/-! Numbers as JSON texts write them. -/
namespace NodeGroups.Json

structure Numeral where
  negative : Bool
  /-- Digits before the point. -/
  integer : List Nat
  /-- Digits after the point, none if there is no point. -/
  fraction : List Nat
  exponent : Option Int
  deriving DecidableEq, Repr

namespace Numeral

/-- Takes digits as long as the number written stays below the bound of natural numbers. Gives that number and how
many digits are left. -/
def take (n : Nat) : List Nat → Nat × Nat
  | [] => (n, 0)
  | d :: ds => if 10 * n + d < Text.naturalBound then take (10 * n + d) ds else (n, ds.length + 1)

/-- The number has no finite binary64 value. It is measured as the product of two rounded numbers: its leading digits
and a power of ten. -/
def overflows (x : Numeral) : Bool :=
  let (n, dropped) := take 0 x.integer
  let (significand, left) := take n x.fraction
  let e : Int := dropped - (x.fraction.length - left : Nat) + x.exponent.getD 0
  if significand = 0 || e < 0 then false
  else if e > 308 then true
  else Text.Binary64.overflowBound ≤ Text.Binary64.round significand * Text.Binary64.round (Nat.pow 10 e.toNat)

/-- A natural number has no sign, point or exponent. -/
def natural? (x : Numeral) : Option Nat :=
  if x.negative || !x.fraction.isEmpty || x.exponent.isSome then none
  else (some (x.integer.foldl (10 * · + ·) 0)).filter (· < Text.naturalBound)

end Numeral
end NodeGroups.Json
