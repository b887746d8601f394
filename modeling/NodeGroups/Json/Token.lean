import NodeGroups.Json.Numeral
import NodeGroups.Text.Hex
import NodeGroups.Text.Utf8

/-! The words and marks of a JSON text. -/
namespace NodeGroups.Json

inductive Token where
  | openList
  | closeList
  | openRecord
  | closeRecord
  | comma
  | colon
  | null
  | bool (b : Bool)
  | num (n : Numeral)
  /-- No text if it holds a lone surrogate or is not UTF-8. -/
  | str (s : Option String)
  /-- No word or mark; nothing is read after it. -/
  | bad
  deriving DecidableEq, Repr

namespace Token

def isBlank (b : UInt8) : Bool := b == 0x20 || b == 0x09 || b == 0x0A || b == 0x0D

def isDigit (b : UInt8) : Bool := 0x30 ≤ b && b ≤ 0x39

/-! ## Strings -/

/-- The part of a string that is read: its bytes, latest first, a leading surrogate that waits for the trailing one,
and whether all surrogates so far are paired. -/
structure Content where
  bytes : List UInt8 := []
  lead : Option Nat := none
  paired : Bool := true

namespace Content

/-- A leading surrogate that still waits stays alone. -/
def settle (s : Content) : Content := { s with lead := none, paired := s.paired && s.lead.isNone }

def push (s : Content) (b : UInt8) : Content :=
  let s := s.settle
  { s with bytes := b :: s.bytes }

def pushChar (s : Content) (n : Nat) : Content :=
  { s with bytes := (Text.Utf8.encode (String.singleton (Char.ofNat n))).reverse ++ s.bytes, lead := none }

/-- Adds a code unit of sixteen bits. -/
def pushUnit (s : Content) (n : Nat) : Content :=
  if 0xDC00 ≤ n ∧ n ≤ 0xDFFF then
    match s.lead with
    | some lead => s.pushChar (0x10000 + (lead - 0xD800) * 0x400 + (n - 0xDC00))
    | none => { s with paired := false }
  else
    let s := s.settle
    if 0xD800 ≤ n ∧ n ≤ 0xDBFF then { s with lead := some n } else s.pushChar n

def text? (s : Content) : Option String :=
  let s := s.settle
  if s.paired then Text.Utf8.decode? s.bytes.reverse else none

end Content

/-- The byte that stands for itself or a control character after a backslash. -/
def shortEscape? (b : UInt8) : Option UInt8 :=
  match Char.ofNat b.toNat with
  | '"' => some 0x22
  | '\\' => some 0x5C
  | '/' => some 0x2F
  | 'b' => some 0x08
  | 'f' => some 0x0C
  | 'n' => some 0x0A
  | 'r' => some 0x0D
  | 't' => some 0x09
  | _ => none

def codeUnit? (ds : List UInt8) : Option Nat :=
  ds.foldl (fun acc b => acc.bind fun n => (Text.Hex.digit? b).map fun d => 16 * n + d) (some 0)

/-- Reads on to the closing quote. -/
def readString (s : Content) : List UInt8 → Option (Option String × List UInt8)
  | [] => none
  | 0x22 :: rest => some (s.text?, rest)
  | 0x5C :: 0x75 :: a :: b :: c :: d :: rest =>
    match codeUnit? [a, b, c, d] with
    | some n => readString (s.pushUnit n) rest
    | none => none
  | 0x5C :: e :: rest =>
    match shortEscape? e with
    | some b => readString (s.push b) rest
    | none => none
  | b :: rest => if b < 0x20 || b == 0x5C then none else readString (s.push b) rest

/-! ## Numbers -/

def digits (bs : List UInt8) : List Nat := (bs.takeWhile isDigit).map fun b => b.toNat - 0x30

/-- The sign and digits after the letter of an exponent. -/
def readExponent (bs : List UInt8) : Option (Int × List UInt8) :=
  let (negative, bs) := match bs with
    | 0x2D :: rest => (true, rest)
    | 0x2B :: rest => (false, rest)
    | _ => (false, bs)
  match digits bs with
  | [] => none
  | ds =>
    let n : Nat := ds.foldl (10 * · + ·) 0
    some (if negative then -n else n, bs.dropWhile isDigit)

/-- At least one digit stands after a point. -/
def readFraction (bs : List UInt8) : Option (List Nat × List UInt8) :=
  match bs with
  | 0x2E :: rest =>
    match digits rest with
    | [] => none
    | ds => some (ds, rest.dropWhile isDigit)
  | _ => some ([], bs)

def readTail (bs : List UInt8) : Option (Option Int × List UInt8) :=
  match bs with
  | b :: rest =>
    if b == 0x65 || b == 0x45 then (readExponent rest).map fun (e, rest) => (some e, rest) else some (none, bs)
  | [] => some (none, [])

/-- Reads the number that follows its sign. A zero is the only digit before the point, or not the first. -/
def readNumber (negative : Bool) (bs : List UInt8) : Option (Numeral × List UInt8) := do
  let integer := digits bs
  if integer.isEmpty || integer.length > 1 && integer.head? == some 0 then none
  let (fraction, rest) ← readFraction (bs.dropWhile isDigit)
  let (exponent, rest) ← readTail rest
  return ({ negative, integer, fraction, exponent }, rest)

/-! ## Texts -/

/-- The token that stands first, and what follows it. -/
def next : List UInt8 → Token × List UInt8
  | 0x5B :: rest => (openList, rest)
  | 0x5D :: rest => (closeList, rest)
  | 0x7B :: rest => (openRecord, rest)
  | 0x7D :: rest => (closeRecord, rest)
  | 0x2C :: rest => (comma, rest)
  | 0x3A :: rest => (colon, rest)
  | 0x22 :: rest => (readString {} rest).elim (bad, []) fun (s, rest) => (str s, rest)
  | 0x2D :: rest => (readNumber true rest).elim (bad, []) fun (n, rest) => (num n, rest)
  | 0x6E :: 0x75 :: 0x6C :: 0x6C :: rest => (null, rest)
  | 0x74 :: 0x72 :: 0x75 :: 0x65 :: rest => (bool true, rest)
  | 0x66 :: 0x61 :: 0x6C :: 0x73 :: 0x65 :: rest => (bool false, rest)
  | bs => (readNumber false bs).elim (bad, []) fun (n, rest) => (num n, rest)

/-- The tokens of a text, put behind those already read, which stand latest first. Every token takes a byte, so a
text has at most as many as bytes. -/
def readAll : Nat → List Token → List UInt8 → List Token
  | 0, read, _ => read.reverse
  | n + 1, read, bs =>
    match bs.dropWhile isBlank with
    | [] => read.reverse
    | bs =>
      let (t, rest) := next bs
      readAll n (t :: read) rest

def ofBytes (bs : List UInt8) : List Token := readAll (bs.length + 1) [] bs

end Token
end NodeGroups.Json
