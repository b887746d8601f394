import NodeGroups.Json.Reading
import NodeGroups.Table

/-! Decoding of JSON values in the order of the text, up to the first fault. -/
namespace NodeGroups.Json

/-- The text is no JSON, or it is JSON of another shape. -/
inductive Fault where
  | form
  | shape
  deriving DecidableEq, Repr

def Fault.describe : Fault → String
  | form => "not a JSON text"
  | shape => "a JSON text of another shape"

/-- Decodes a value inside which lists and records nest at most so deep. -/
def Decoder (α : Type) : Type := Nat → Reading → Except Fault α

/-- How deep lists and records of a text may nest. -/
def maxDepth : Nat := 127

/-- The fault of a value of another kind than wanted. Of a list or record only the start is looked at. -/
def mismatch : Reading → Fault
  | .num n => if n.overflows then .form else .shape
  | .str none => .form
  | .broken => .form
  | _ => .shape

namespace Decoder
variable {α : Type}

def string : Decoder String
  | _, .str (some s) => .ok s
  | _, r => .error (mismatch r)

def bool : Decoder Bool
  | _, .bool b => .ok b
  | _, r => .error (mismatch r)

def natural : Decoder Nat
  | _, .num n => n.natural?.elim (.error (mismatch (.num n))) .ok
  | _, r => .error (mismatch r)

/-- Nothing may be missing after the parts of a list or record. -/
def atEnd (closed : Bool) (a : α) : Except Fault α := if closed then .ok a else .error .form

def list (item : Decoder α) : Decoder (List α)
  | 0, .list .. => .error .form
  | depth + 1, .list items closed => do atEnd closed (← items.mapM (item depth))
  | _, r => .error (mismatch r)

/-- Puts the value of a member into place. -/
def entry (value : Decoder α) (depth : Nat) (es : List (String × α)) :
    Option String × Reading → Except Fault (List (String × α))
  | (none, _) => .error .form
  | (some k, v) => return Table.place k (← value depth v) es

/-- Decodes a record with keys of any name; the last member of a key wins. -/
def entries (value : Decoder α) : Decoder (List (String × α))
  | 0, .record .. => .error .form
  | depth + 1, .record members closed => do atEnd closed (← members.foldlM (entry value depth) [])
  | _, r => .error (mismatch r)

def table (value : Decoder α) : Decoder (Table α) :=
  fun depth r => return Table.ofList (← entries value depth r)

/-! ## Records with known fields -/

/-- A field of `α`. Its decoder puts the value into place. -/
structure Field (α : Type) where
  name : String
  required : Bool := false
  put : Nat → Reading → α → Except Fault α

def field {β : Type} (name : String) (value : Decoder β) (set : β → α → α) : Field α where
  name
  put depth r a := return set (← value depth r) a

def Field.needed (f : Field α) : Field α := { f with required := true }

/-- Members of other names only have to be whole. No field may be given twice. -/
def member (fields : List (Field α)) (depth : Nat) (read : List String × α) :
    Option String × Reading → Except Fault (List String × α)
  | (none, _) => .error .form
  | (some k, v) =>
    match fields.find? (·.name == k) with
    | none => if v.whole then .ok read else .error .form
    | some f =>
      if k ∈ read.1 then .error .shape
      else return (k :: read.1, ← f.put depth v read.2)

/-- The fields of a record in their order; those that are not required may be missing at the end. -/
def inOrder (closed : Bool) (depth : Nat) : List (Field α) → List Reading → α → Except Fault α
  | f :: fs, v :: vs, a => do inOrder closed depth fs vs (← f.put depth v a)
  | [], _ :: _, _ => .error .form
  | fs, [], a => if closed && fs.any (·.required) then .error .shape else atEnd closed a

/-- Decodes a record, or the list of its fields, where `start` holds what a field that is not given has. -/
def record (fields : List (Field α)) (start : α) : Decoder α
  | 0, .record .. => .error .form
  | 0, .list .. => .error .form
  | depth + 1, .record members closed => do
    let (given, a) ← members.foldlM (member fields depth) ([], start)
    if closed && fields.any (fun f => f.required && !given.contains f.name) then .error .shape else atEnd closed a
  | depth + 1, .list items closed => inOrder closed depth fields items start
  | _, r => .error (mismatch r)

/-- Decodes a text that holds one value and nothing else. -/
def decode (value : Decoder α) (bs : List UInt8) : Except Fault α := do
  let (r, ended) := Reading.ofBytes bs
  let a ← value maxDepth r
  if ended then return a else throw .form

end Decoder
end NodeGroups.Json
