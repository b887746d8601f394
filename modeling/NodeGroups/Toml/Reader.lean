import NodeGroups.Toml.DateTime
import NodeGroups.Toml.Number
import NodeGroups.Toml.Quoted
import NodeGroups.Toml.Table

/-! Keys and values. -/
namespace NodeGroups.Toml
open Entries (Pair)

/-- One more than how deep values may nest, and than how many keys dots may join. -/
def nestingBound : Nat := 80

/-! ## Keys -/

def isBare (c : Char) : Bool := c.isAlphanum || c == '_' || c == '-'

def simpleKey : Reader String := fun cs =>
  match cs.takeWhile isBare with
  | [] => (Quoted.basic cs).or (Quoted.literal cs)
  | bare => some (String.ofList bare, cs.dropWhile isBare)

/-- Keys joined by dots. Every one takes a character. -/
def keysFrom : Nat → Reader (List String)
  | 0, _ => none
  | n + 1, cs => do
    let (k, rest) ← simpleKey (skipSpace cs)
    match skipSpace rest with
    | '.' :: rest =>
      let (ks, rest) ← keysFrom n rest
      return (k :: ks, rest)
    | rest => return ([k], rest)

/-- A key behind others that dots join to it, with the spaces around it. -/
def key : Reader (List String × String) := fun cs => do
  let (ks, rest) ← keysFrom (cs.length + 1) cs
  if nestingBound ≤ ks.length then none
  return ((ks.dropLast, ks.getLastD ""), rest)

/-! ## Lists of values -/

/-- What follows a comment, or its start. -/
def afterComment (cs : List Char) : List Char := cs.dropWhile isContent

/-- Takes spaces, comments and line breaks away. Every step takes a character. -/
def skipLines : Nat → List Char → Option (List Char)
  | 0, _ => none
  | n + 1, cs =>
    match skipSpace cs with
    | '#' :: rest => (newline? (afterComment rest)).bind (skipLines n)
    | cs =>
      match newline? cs with
      | some rest => skipLines n rest
      | none => some cs

def blankLines (cs : List Char) : Option (List Char) := skipLines (cs.length + 1) cs

/-- Items of an array up to its end, with a comma behind each one but the last, which may have one. -/
def arrayFrom (item : Reader Value) : Nat → Reader (List Value)
  | 0, _ => none
  | n + 1, cs => do
    let cs ← blankLines cs
    match cs with
    | ']' :: rest => return ([], rest)
    | _ =>
      let (v, rest) ← item cs
      let rest ← blankLines rest
      match rest with
      | ']' :: rest => return ([v], rest)
      | ',' :: rest =>
        let (vs, rest) ← arrayFrom item n rest
        return (v :: vs, rest)
      | _ => none

/-- A key and its value on one line. -/
def pair (item : Reader Value) : Reader Pair := fun cs => do
  let ((path, k), rest) ← key cs
  match rest with
  | '=' :: rest =>
    let (value, rest) ← item (skipSpace rest)
    return ({ path, key := k, value }, skipSpace rest)
  | _ => none

/-- Pairs up to the closing brace, with a comma between them. -/
def pairsFrom (item : Reader Value) : Nat → Reader (List Pair)
  | 0, _ => none
  | n + 1, cs => do
    let (p, rest) ← pair item cs
    match rest with
    | '\x7d' :: rest => return ([p], rest)
    | ',' :: rest =>
      let (ps, rest) ← pairsFrom item n rest
      return (p :: ps, rest)
    | _ => none

def inlineTable (item : Reader Value) : Reader Value := fun cs =>
  match skipSpace cs with
  | '\x7d' :: rest => some (.table .inline [], rest)
  | cs => do
    let (ps, rest) ← pairsFrom item (cs.length + 1) cs
    return (.table .inline (← Entries.assignAll ps []), rest)

/-! ## Values -/

def boolean (cs : List Char) : Option (Value × List Char) :=
  match mark? "true" cs, mark? "false" cs with
  | some rest, _ => some (.boolean true, rest)
  | none, some rest => some (.boolean false, rest)
  | none, none => none

def scalar : Reader Value := fun cs =>
  ((Quoted.string cs).map fun (s, rest) => (.string s, rest)).or
    ((boolean cs).or ((DateTime.dateTime cs).or (Number.number cs)))

/-- A value in which others nest at most so deep. -/
def value : Nat → Reader Value
  | depth + 1, '[' :: rest => (arrayFrom (value depth) (rest.length + 1) rest).map fun (vs, rest) => (.array vs, rest)
  | depth + 1, '\x7b' :: rest => inlineTable (value depth) rest
  | _, cs => scalar cs

end NodeGroups.Toml
