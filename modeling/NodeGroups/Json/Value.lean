import NodeGroups.Text.Hex

/-! JSON values, and the texts written for them. -/
namespace NodeGroups.Json

inductive Value where
  | null
  | bool (b : Bool)
  | num (n : Nat)
  | str (s : String)
  | list (items : List Value)
  | record (members : List (String × Value))

namespace Value

instance : Inhabited Value := ⟨null⟩

/-- A text, or null. -/
def ofText? (s : Option String) : Value := s.elim null str

/-! ## Texts -/

def escaped (c : Char) : List Char :=
  match c with
  | '"' => ['\\', '"']
  | '\\' => ['\\', '\\']
  | '\x08' => ['\\', 'b']
  | '\x0c' => ['\\', 'f']
  | '\n' => ['\\', 'n']
  | '\r' => ['\\', 'r']
  | '\t' => ['\\', 't']
  | _ => if c.toNat < 0x20 then ['\\', 'u', '0', '0'] ++ [c.toNat / 16, c.toNat % 16].map Text.Hex.digit else [c]

def quoted (s : String) : List Char := '"' :: s.toList.flatMap escaped ++ ['"']

/-- A line break and two spaces for each level around the place. -/
def newLine (level : Nat) : List Char := '\n' :: List.replicate (2 * level) ' '

/-- Parts on lines of their own between an opening and a closing mark. -/
def block (level : Nat) (left right : Char) : List (List Char) → List Char
  | [] => [left, right]
  | parts => left :: List.intercalate [','] (parts.map (newLine (level + 1) ++ ·)) ++ newLine level ++ [right]

mutual
/-- A value as it stands at a level of nesting, each part on a line of its own. -/
def lines (level : Nat) : Value → List Char
  | null => ['n', 'u', 'l', 'l']
  | bool true => ['t', 'r', 'u', 'e']
  | bool false => ['f', 'a', 'l', 's', 'e']
  | num n => Nat.toDigits 10 n
  | str s => quoted s
  | list items => block level '[' ']' (itemLines (level + 1) items)
  | record members => block level '\x7b' '\x7d' (memberLines (level + 1) members)

def itemLines (level : Nat) : List Value → List (List Char)
  | [] => []
  | v :: vs => lines level v :: itemLines level vs

def memberLines (level : Nat) : List (String × Value) → List (List Char)
  | [] => []
  | (k, v) :: ms => (quoted k ++ [':', ' '] ++ lines level v) :: memberLines level ms
end

def pretty (v : Value) : String := String.ofList (lines 0 v)

mutual
/-- A value without blanks. -/
def chars : Value → List Char
  | null => ['n', 'u', 'l', 'l']
  | bool true => ['t', 'r', 'u', 'e']
  | bool false => ['f', 'a', 'l', 's', 'e']
  | num n => Nat.toDigits 10 n
  | str s => quoted s
  | list items => '[' :: itemChars items ++ [']']
  | record members => '\x7b' :: memberChars members ++ ['\x7d']

def itemChars : List Value → List Char
  | [] => []
  | [v] => chars v
  | v :: vs => chars v ++ ',' :: itemChars vs

def memberChars : List (String × Value) → List Char
  | [] => []
  | [(k, v)] => quoted k ++ ':' :: chars v
  | (k, v) :: ms => quoted k ++ ':' :: chars v ++ ',' :: memberChars ms
end

def compact (v : Value) : String := String.ofList (chars v)

end Value
end NodeGroups.Json
