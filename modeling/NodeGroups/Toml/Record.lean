import NodeGroups.Toml.Value

/-! Records as TOML values: a table of the fields, or a list of them in their order. -/
namespace NodeGroups.Toml

inductive Record where
  | named (entries : Entries)
  | listed (items : List Value)

/-- A date counts as a record of which no field is known. -/
def Value.record? : Value → Option Record
  | .table _ es => some (.named es)
  | .array items => some (.listed items)
  | .tables elements => some (.listed (elements.map (.table .header)))
  | .datetime => some (.named [])
  | _ => none

def Value.text? : Value → Option String
  | .string s => some s
  | _ => none

def Value.items? : Value → Option (List Value)
  | .array items => some items
  | .tables elements => some (elements.map (.table .header))
  | _ => none

/-- The only key of a table, if there is nothing below it. -/
def Value.loneKey? : Value → Option String
  | .table _ [(k, .table _ [])] => some k
  | .table _ [(k, .array [])] => some k
  | _ => none

namespace Record

/-- The field of that name and place. -/
def get? (r : Record) (name : String) (place : Nat) : Option Value :=
  match r with
  | named es => es.lookup name
  | listed items => items[place]?

/-- A field that may be missing. -/
def getD {α : Type} (r : Record) (name : String) (place : Nat) (read : Value → Option α) (default : α) :
    Option α :=
  match r.get? name place with
  | some v => read v
  | none => some default

/-- A text that may be missing, though not from a list. -/
def optionalText (r : Record) (name : String) (place : Nat) : Option (Option String) :=
  match r.get? name place, r with
  | some v, _ => v.text?.map some
  | none, named _ => some none
  | none, listed _ => none

/-- A text that may not be missing. -/
def text (r : Record) (name : String) (place : Nat) : Option String := (r.get? name place).bind (·.text?)

end Record
end NodeGroups.Toml
