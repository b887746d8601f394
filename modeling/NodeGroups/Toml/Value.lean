/-! TOML values. -/
namespace NodeGroups.Toml

/-- How a table came to be, which decides what may still be added to it. -/
inductive Origin where
  /-- Written between braces. -/
  | inline
  /-- Opened by a header of its own. -/
  | header
  /-- Only passed by headers of tables inside it. -/
  | implied
  /-- Only passed by dotted keys. -/
  | dotted
  deriving DecidableEq, Repr

/-- A value. Nothing is kept of floats, dates and times. -/
inductive Value where
  | string (s : String)
  | integer (n : Int)
  | float
  | boolean (b : Bool)
  | datetime
  | array (items : List Value)
  | table (origin : Origin) (entries : List (String × Value))
  /-- An array of tables that each have a header; latest last. -/
  | tables (elements : List (List (String × Value)))

/-- A table's keys and values, in the order in which they came up. -/
abbrev Entries := List (String × Value)

/-- Reads something at the start of a text, and hands back what follows it. -/
abbrev Reader (α : Type) := List Char → Option (α × List Char)

def isSpace (c : Char) : Bool := c == ' ' || c == '\t'

def skipSpace (cs : List Char) : List Char := cs.dropWhile isSpace

/-- May stand in strings and comments: everything but line breaks and control characters other than the tab. -/
def isContent (c : Char) : Bool := c == '\t' || 0x20 ≤ c.toNat && c != '\x7f'

/-- What follows a line break at the start. -/
def newline? : List Char → Option (List Char)
  | '\n' :: rest => some rest
  | '\r' :: '\n' :: rest => some rest
  | _ => none

/-- What follows a mark at the start. -/
def mark? (mark : String) (cs : List Char) : Option (List Char) :=
  if mark.toList <+: cs then some (cs.drop mark.length) else none

end NodeGroups.Toml
