import NodeGroups.Text.Hex
import NodeGroups.Toml.Value

/-! Strings in quotes. -/
namespace NodeGroups.Toml.Quoted

/-- The character that so many hexadecimal digits name. -/
def codePoint (n : Nat) : Reader Char := fun cs => do
  let digits := cs.take n
  if digits.length ≠ n then none
  let v ← Text.Hex.value? digits
  if v.isValidChar then some (Char.ofNat v, cs.drop n) else none

/-- What stands behind a backslash. -/
def escape : Reader Char
  | 'b' :: rest => some ('\x08', rest)
  | 't' :: rest => some ('\t', rest)
  | 'n' :: rest => some ('\n', rest)
  | 'f' :: rest => some ('\x0c', rest)
  | 'r' :: rest => some ('\r', rest)
  | '"' :: rest => some ('"', rest)
  | '\\' :: rest => some ('\\', rest)
  | 'u' :: rest => codePoint 4 rest
  | 'U' :: rest => codePoint 8 rest
  | _ => none

/-- Takes spaces and line breaks away. -/
def skipBlank : List Char → List Char
  | '\r' :: '\n' :: rest => skipBlank rest
  | c :: rest => if isSpace c || c == '\n' then skipBlank rest else c :: rest
  | [] => []

/-- What follows a backslash at the end of a line, up to the next character that is not blank. -/
def joinedLine? (cs : List Char) : Option (List Char) := (newline? (skipSpace cs)).map skipBlank

/-- The part of a string on one line behind what was read of it, latest first. Every step takes a character. -/
def lineFrom : Nat → List Char → Reader String
  | 0, _, _ => none
  | n + 1, read, cs =>
    match cs with
    | '"' :: rest => some (String.ofList read.reverse, rest)
    | '\\' :: rest => do
      let (c, rest) ← escape rest
      lineFrom n (c :: read) rest
    | c :: rest => if isContent c then lineFrom n (c :: read) rest else none
    | [] => none

/-- The quotes at the start. Three of them end a string over several lines, and one or two more before those belong
to it. -/
def closing? (quote : Char) (cs : List Char) : Option (Option (List Char × List Char)) :=
  let quotes := cs.takeWhile (· == quote)
  if quotes.length < 3 then none
  else if quotes.length ≤ 5 then some (some (quotes.drop 3, cs.drop quotes.length))
  else some none

/-- The part of a string over several lines behind what was read of it, latest first. -/
def blockFrom (quote : Char) (escapes : Bool) : Nat → List Char → Reader String
  | 0, _, _ => none
  | n + 1, read, cs =>
    match closing? quote cs with
    | some close => close.map fun (quotes, rest) => (String.ofList (read.reverse ++ quotes), rest)
    | none =>
      match newline? cs, cs with
      | some rest, _ => blockFrom quote escapes n ('\n' :: read) rest
      | none, [] => none
      | none, c :: rest =>
        if escapes && c == '\\' then
          match joinedLine? rest with
          | some rest => blockFrom quote escapes n read rest
          | none => do
            let (c, rest) ← escape rest
            blockFrom quote escapes n (c :: read) rest
        else if isContent c then blockFrom quote escapes n (c :: read) rest
        else none

/-- A line break right behind the opening quotes does not count. -/
def block (quote : Char) (escapes : Bool) : Reader String := fun cs =>
  blockFrom quote escapes (cs.length + 1) [] ((newline? cs).getD cs)

/-- A string on one line in which a backslash escapes. -/
def basic : Reader String
  | '"' :: rest => lineFrom (rest.length + 1) [] rest
  | _ => none

/-- A string on one line in which nothing escapes. -/
def literal : Reader String
  | '\'' :: rest =>
    match rest.dropWhile fun c => isContent c && c != '\'' with
    | '\'' :: after => some (String.ofList (rest.takeWhile fun c => isContent c && c != '\''), after)
    | _ => none
  | _ => none

def string : Reader String
  | '"' :: '"' :: '"' :: rest => block '"' true rest
  | '\'' :: '\'' :: '\'' :: rest => block '\'' false rest
  | cs => (basic cs).or (literal cs)

end NodeGroups.Toml.Quoted
