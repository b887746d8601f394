import NodeGroups.Text.Binary64
import NodeGroups.Text.Hex
import NodeGroups.Toml.Value

/-! Integers and floats. -/
namespace NodeGroups.Toml.Number

/-- Digits behind a digit, each after an underscore or none. -/
def moreDigits (isDigit : Char → Bool) : List Char → List Char × List Char
  | '_' :: c :: rest =>
    if isDigit c then
      let (ds, rest) := moreDigits isDigit rest
      (c :: ds, rest)
    else ([], '_' :: c :: rest)
  | c :: rest =>
    if isDigit c then
      let (ds, rest) := moreDigits isDigit rest
      (c :: ds, rest)
    else ([], c :: rest)
  | [] => ([], [])

/-- One digit or more. -/
def digits (isDigit : Char → Bool) : Reader (List Char)
  | [] => none
  | c :: rest =>
    if isDigit c then
      let (ds, rest) := moreDigits isDigit rest
      some (c :: ds, rest)
    else none

/-- Decimal digits that do not start with a zero, or a single zero. -/
def whole : Reader (List Char)
  | '0' :: rest => some (['0'], rest)
  | cs => digits Char.isDigit cs

/-- Nothing or a sign, true if it is a minus. -/
def sign : List Char → Bool × List Char
  | '-' :: rest => (true, rest)
  | '+' :: rest => (false, rest)
  | cs => (false, cs)

def valueOf (ds : List Char) : Nat := Nat.ofDigitChars 10 ds 0

/-- The largest integer of 64 bits. -/
def largest : Nat := 9223372036854775807

def signed (negative : Bool) (n : Nat) : Option Value :=
  if negative then if n ≤ largest + 1 then some (.integer (-n)) else none
  else if n ≤ largest then some (.integer n) else none

/-- The digits behind a point. -/
def fraction? : List Char → Option (List Char × List Char)
  | '.' :: rest => digits Char.isDigit rest
  | _ => none

def exponent? : List Char → Option (Int × List Char)
  | c :: rest =>
    if c == 'e' || c == 'E' then
      let (negative, rest) := sign rest
      (digits Char.isDigit rest).map fun (ds, rest) => (if negative then -valueOf ds else valueOf ds, rest)
    else none
  | [] => none

/-- A float whose whole part was read. It must not be too large, though it may be too small. -/
def float? (negative : Bool) (ds : List Char) (cs : List Char) : Option (Option (Value × List Char)) :=
  let (fraction, afterFraction) := (fraction? cs).getD ([], cs)
  let (e, rest) := (exponent? afterFraction).getD (0, afterFraction)
  if fraction.isEmpty && (exponent? cs).isNone then none
  else if !negative && Text.Binary64.overflows (valueOf (ds ++ fraction)) (e - fraction.length) then some none
  else some (some (.float, rest))

def decimal : Reader Value := fun cs =>
  let (negative, cs) := sign cs
  match mark? "inf" cs, mark? "nan" cs with
  | some rest, _ => some (.float, rest)
  | none, some rest => some (.float, rest)
  | none, none => do
    let (ds, rest) ← whole cs
    match float? negative ds rest with
    | some result => result
    | none => return (← signed negative (valueOf ds), rest)

/-- Digits of another base behind its mark. -/
def based (base : Nat) : Reader Value := fun cs => do
  let (ds, rest) ← digits (fun c => (Text.Hex.charDigit? c).any (· < base)) cs
  let n := ds.foldl (fun n c => base * n + (Text.Hex.charDigit? c).getD 0) 0
  return (← signed false n, rest)

def number : Reader Value
  | '0' :: 'x' :: rest => based 16 rest
  | '0' :: 'o' :: rest => based 8 rest
  | '0' :: 'b' :: rest => based 2 rest
  | cs => decimal cs

end NodeGroups.Toml.Number
