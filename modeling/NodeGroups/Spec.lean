import NodeGroups.Text.Blank
import NodeGroups.Text.Natural

/-! Node group specs, written `<min>:<max>:<model>:<application>`. -/
namespace NodeGroups

/-- The units of one application of one model, and how many of them there may be. -/
structure Spec where
  minSize : Nat
  maxSize : Nat
  model : String
  application : String
  deriving DecidableEq, Repr

namespace Spec

/-- Why a text is no spec. -/
inductive Fault where
  | form
  | minSize
  | maxSize
  | zeroMaxSize
  | minAboveMax
  | emptyName
  deriving DecidableEq, Repr

def Fault.reason : Fault → String
  | form => "expected <min>:<max>:<model>:<application>"
  | minSize => "min size is not a non-negative integer"
  | maxSize => "max size is not a non-negative integer"
  | zeroMaxSize => "max size must be at least 1"
  | minAboveMax => "min size is greater than max size"
  | emptyName => "model and application must not be empty"

/-- Reads a spec from four parts. -/
def ofParts (lo hi model application : List Char) : Except Fault Spec := do
  let minSize ← (Text.natural? lo).elim (.error .minSize) .ok
  let maxSize ← (Text.natural? hi).elim (.error .maxSize) .ok
  if maxSize = 0 then throw .zeroMaxSize
  if maxSize < minSize then throw .minAboveMax
  if model.isEmpty || application.isEmpty then throw .emptyName
  return { minSize, maxSize, model := String.ofList model, application := String.ofList application }

/-- Blanks around the text do not count, those inside it do. -/
def parse (s : String) : Except Fault Spec :=
  match (Text.trimmed s.toList).splitOn ':' with
  | [lo, hi, model, application] => ofParts lo hi model application
  | _ => .error .form

/-- The name of the group that the spec describes. -/
def id (s : Spec) : String := "juju-" ++ s.model ++ "-" ++ s.application

def render (s : Spec) : String :=
  toString s.minSize ++ ":" ++ toString s.maxSize ++ ":" ++ s.model ++ ":" ++ s.application

end Spec
end NodeGroups
