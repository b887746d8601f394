/-! Hexadecimal digits. -/
namespace NodeGroups.Text.Hex

/-- The value of a digit, whose letter may be of either case. -/
def digit? (b : UInt8) : Option Nat :=
  if 0x30 ≤ b && b ≤ 0x39 then some (b.toNat - 0x30)
  else if 0x41 ≤ b && b ≤ 0x46 then some (b.toNat - 0x41 + 10)
  else if 0x61 ≤ b && b ≤ 0x66 then some (b.toNat - 0x61 + 10)
  else none

/-- The digit of a value below sixteen, in lower case. -/
def digit (n : Nat) : Char := Nat.digitChar n

/-- The digits of a byte, the letters in upper case. -/
def ofByte (b : UInt8) : List Char := [b.toNat / 16, b.toNat % 16].map fun n => (digit n).toUpper

def charDigit? (c : Char) : Option Nat := if c.toNat < 0x80 then digit? c.toNat.toUInt8 else none

/-- The value of a run of digits, `none` if another character stands in it. -/
def value? (cs : List Char) : Option Nat :=
  cs.foldl (fun acc c => acc.bind fun n => (charDigit? c).map fun d => 16 * n + d) (some 0)

end NodeGroups.Text.Hex
