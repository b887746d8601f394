import NodeGroups.Fleet.Snapshot

/-! What is asked of a fleet, and its answers. -/
namespace NodeGroups.Fleet

inductive Request where
  /-- The status of what the patterns match. -/
  | status (patterns : List String)
  | addUnits (application : String) (count : Nat)
  | destroyUnits (units : List String) (destroyStorage force : Bool)
  deriving DecidableEq, Repr

/-- What became of a unit that was to be removed. -/
structure Removal where
  unit : String
  error : Option String
  deriving DecidableEq, Repr

@[reducible] def Request.Answer : Request → Type
  | .status _ => Snapshot
  | .addUnits .. => List String
  | .destroyUnits .. => List Removal

inductive Error where
  /-- The fleet cannot be reached. -/
  | transport (reason : String)
  /-- A command failed; without a code it was killed. -/
  | command (name : String) (code : Option Int) (stderr : String)
  /-- The status is no report. -/
  | decode (detail : String)
  deriving DecidableEq, Repr

def showCode : Option Int → String
  | some n => "Some(" ++ toString n ++ ")"
  | none => "None"

def Error.message : Error → String
  | transport reason => "transport error: " ++ reason
  | command name code stderr =>
    "command \x60" ++ name ++ "\x60 failed (exit code " ++ showCode code ++ "): " ++ stderr
  | decode detail => "failed to decode status output: " ++ detail

/-- An answer, or a refusal. -/
abbrev Outcome (r : Request) : Type := Except Error r.Answer

end NodeGroups.Fleet
