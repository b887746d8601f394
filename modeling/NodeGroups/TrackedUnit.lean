import NodeGroups.Fleet.Snapshot

/-! Units that a manager tracks. -/
namespace NodeGroups
open Fleet (UnitStatus)

/-- A unit that is deleted never comes back to an earlier phase. -/
inductive Phase where
  | creating
  | running
  | deleting
  deriving DecidableEq, Repr

namespace Phase

def name : Phase → String
  | creating => "creating"
  | running => "running"
  | deleting => "deleting"

/-- The phase of a unit that is first seen with a status. -/
def observed (s : UnitStatus) : Phase := if s.isReady then running else creating

end Phase

/-- What is known of a unit. -/
structure TrackedUnit where
  /-- The name that the fleet has given it, and under which it is tracked. -/
  externalId : String
  phase : Phase
  /-- The name of the node on it, empty until it is known. -/
  identity : String := ""
  /-- The status last seen. -/
  status : UnitStatus
  deriving DecidableEq, Repr

namespace TrackedUnit

def isResolved (u : TrackedUnit) : Bool := !u.identity.isEmpty

/-- Takes over a name of the node unless one is known. -/
def resolve (u : TrackedUnit) (name : Option String) : TrackedUnit :=
  if u.isResolved then u else { u with identity := name.getD "" }

/-- Takes over a status. Only a unit that is created starts to run by it. -/
def observe (u : TrackedUnit) (s : UnitStatus) : TrackedUnit :=
  { u with status := s, phase := if u.phase = .creating && s.isReady then .running else u.phase }

/-- The unit has a node that is to stay. -/
def isRegistered (u : TrackedUnit) : Bool := u.isResolved && u.phase != .deleting

end TrackedUnit
end NodeGroups
