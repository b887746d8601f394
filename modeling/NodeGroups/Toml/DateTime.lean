import NodeGroups.Toml.Value

/-! Dates and times. Only what follows them is handed back. -/
namespace NodeGroups.Toml.DateTime

/-- So many digits, whose value lies within bounds. -/
def field (count lo hi : Nat) (cs : List Char) : Option (Nat × List Char) :=
  let ds := cs.take count
  let n := Nat.ofDigitChars 10 ds 0
  if ds.length = count ∧ ds.all Char.isDigit ∧ lo ≤ n ∧ n ≤ hi then some (n, cs.drop count) else none

def isLeap (year : Nat) : Bool := year % 4 == 0 && (year % 100 != 0 || year % 400 == 0)

def daysIn (year month : Nat) : Nat :=
  if month = 2 then if isLeap year then 29 else 28
  else if month = 4 ∨ month = 6 ∨ month = 9 ∨ month = 11 then 30
  else 31

def date (cs : List Char) : Option (List Char) := do
  let (year, cs) ← field 4 0 9999 cs
  let (month, cs) ← field 2 1 12 (← mark? "-" cs)
  let (_, cs) ← field 2 1 (daysIn year month) (← mark? "-" cs)
  return cs

/-- The part of a second. -/
def fraction : List Char → List Char
  | '.' :: c :: rest => if c.isDigit then rest.dropWhile Char.isDigit else '.' :: c :: rest
  | cs => cs

/-- A minute may have a leap second. -/
def time (cs : List Char) : Option (List Char) := do
  let (_, cs) ← field 2 0 23 cs
  let (_, cs) ← field 2 0 59 (← mark? ":" cs)
  let (_, cs) ← field 2 0 60 (← mark? ":" cs)
  return fraction cs

/-- The distance from universal time. -/
def offset : List Char → Option (List Char)
  | [] => none
  | c :: rest =>
    if c == 'Z' || c == 'z' then some rest
    else if c == '+' || c == '-' then do
      let (_, cs) ← field 2 0 23 rest
      let (_, cs) ← field 2 0 59 (← mark? ":" cs)
      return cs
    else none

/-- A time behind a date. -/
def timeOfDay : List Char → Option (List Char)
  | [] => none
  | c :: rest =>
    if c == 'T' || c == 't' || c == ' ' then (time rest).map fun cs => (offset cs).getD cs else none

def dateTime : Reader Value := fun cs =>
  match date cs with
  | some rest => some (.datetime, (timeOfDay rest).getD rest)
  | none => (time cs).map fun rest => (.datetime, rest)

end NodeGroups.Toml.DateTime
