import NodeGroups.Operation

/-! Fleets that answer from a script. -/
namespace NodeGroups.Fleet
open Operation (Reply)

/-- The replies that are left for each kind of request. -/
structure Script where
  status : List (Reply Snapshot) := []
  addUnits : List (Reply (List String)) := []
  destroyUnits : List (Reply (List Removal)) := []

namespace Script

/-- The next of some replies. Without one the fleet cannot be reached. -/
def next {α : Type} (kind : String) : List (Reply α) → Reply α
  | [] => { outcome := some (.error (.transport ("no scripted response for " ++ kind))) }
  | r :: _ => r

def reply (s : Script) : (r : Request) → Script × Reply r.Answer
  | .status _ => ({ s with status := s.status.tail }, next "status" s.status)
  | .addUnits .. => ({ s with addUnits := s.addUnits.tail }, next "add_units" s.addUnits)
  | .destroyUnits .. => ({ s with destroyUnits := s.destroyUnits.tail }, next "destroy_units" s.destroyUnits)

def isExhausted (s : Script) : Bool := s.status.isEmpty && s.addUnits.isEmpty && s.destroyUnits.isEmpty

/-- Puts the replies of another script behind those left. -/
def append (s t : Script) : Script where
  status := s.status ++ t.status
  addUnits := s.addUnits ++ t.addUnits
  destroyUnits := s.destroyUnits ++ t.destroyUnits

instance : Append Script := ⟨append⟩

/-- One fleet with a script. -/
def one : Operation.Fleets Script Unit := fun s _ r => s.reply r

/-- Fleets in a row, each with a script of its own. -/
def row : Operation.Fleets (List Script) Nat := fun ss i r =>
  let (s, answer) := (ss.getD i {}).reply r
  (ss.set i s, answer)

end Script
end NodeGroups.Fleet
