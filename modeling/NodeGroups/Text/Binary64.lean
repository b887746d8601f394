/-! What binary64 numbers can hold. -/
namespace NodeGroups.Text.Binary64

/-- The least number that rounds to infinity: half way above the largest finite number. -/
def overflowBound : Nat := Nat.pow 2 1024 - Nat.pow 2 970

/-- A natural number rounded to 53 significant bits, halves to the even neighbour. -/
def round (n : Nat) : Nat :=
  let shift := n.log2 + 1 - 53
  let unit := Nat.pow 2 shift
  let (q, r) := (n / unit, n % unit)
  let up := 2 * r > unit || 2 * r == unit && q % 2 == 1
  (if up then q + 1 else q) * unit

/-- Some `m * 10 ^ e` is too large for the nearest number to be finite. -/
def overflows (m : Nat) (e : Int) : Bool :=
  let digits := (Nat.toDigits 10 m).length
  if m = 0 then false
  else if digits + e > 310 then true
  else if digits + e < 300 then false
  else overflowBound * Nat.pow 10 (-e).toNat ≤ m * Nat.pow 10 e.toNat

end NodeGroups.Text.Binary64
