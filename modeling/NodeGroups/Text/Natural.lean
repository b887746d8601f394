/-! Natural numbers below 2^64 in decimal. -/
namespace NodeGroups.Text

/-- Two to the power of 64, one more than the largest number that a size or a count of seconds may have. -/
def naturalBound : Nat := 18446744073709551616

/-- One digit or more, after a plus sign or none. -/
def natural? (cs : List Char) : Option Nat :=
  let ds := match cs with
    | '+' :: rest => rest
    | _ => cs
  if ds.isEmpty || !ds.all Char.isDigit then none
  else (some (Nat.ofDigitChars 10 ds 0)).filter (· < naturalBound)

end NodeGroups.Text
