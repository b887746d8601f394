import NodeGroups.Toml.Reader

/-! Documents: pairs at the top, and sections below their headers. -/
namespace NodeGroups.Toml
open Entries (Pair Section)

/-- What stands on a line, or starts on it. -/
inductive Statement where
  | blank
  | pair (p : Pair)
  | header (path : List String) (key : String) (repeated : Bool)

/-- Nothing but a comment follows on the line. -/
def lineEnd (cs : List Char) : Option (List Char) :=
  let cs := match skipSpace cs with
    | '#' :: rest => afterComment rest
    | cs => cs
  if cs.isEmpty then some [] else newline? cs

def header (repeated : Bool) (close : String) : Reader Statement := fun cs => do
  let ((path, k), rest) ← key cs
  return (.header path k repeated, ← mark? close rest)

def statement : Reader Statement := fun cs =>
  match skipSpace cs with
  | [] => some (.blank, [])
  | '#' :: rest => some (.blank, '#' :: rest)
  | '\n' :: rest => some (.blank, '\n' :: rest)
  | '\r' :: rest => some (.blank, '\r' :: rest)
  | '[' :: '[' :: rest => header true "]]" rest
  | '[' :: rest => header false "]" rest
  | cs => (pair (value (nestingBound - 1)) cs).map fun (p, rest) => (.pair p, rest)

/-- The statements of a text. Every line takes a character. -/
def statementsFrom : Nat → List Char → Option (List Statement)
  | 0, _ => none
  | n + 1, cs => do
    let (s, rest) ← statement cs
    let rest ← lineEnd rest
    if rest.isEmpty then return [s] else return s :: (← statementsFrom n rest)

/-- The pairs at the top, and the sections. -/
def sections : List Statement → List Pair × List Section
  | [] => ([], [])
  | .blank :: rest => sections rest
  | .pair p :: rest =>
    let (ps, ss) := sections rest
    (p :: ps, ss)
  | .header path key repeated :: rest =>
    let (pairs, ss) := sections rest
    ([], { path, key, repeated, pairs } :: ss)

def build (statements : List Statement) : Option Entries := do
  let (top, ss) := sections statements
  ss.foldlM Entries.addSection (← Entries.assignAll top [])

/-- Reads a text, behind a byte order mark or none. -/
def parse? (s : String) : Option Entries :=
  let cs := match s.toList with
    | '\uFEFF' :: rest => rest
    | cs => cs
  (statementsFrom (cs.length + 1) cs).bind build

end NodeGroups.Toml
