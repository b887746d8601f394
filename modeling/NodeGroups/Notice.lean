/-! Warnings and errors that an operation leaves in the log. -/
namespace NodeGroups

inductive Notice where
  | fewerUnits (application : String) (requested detected : Nat)
  | removalRejected (unit error : String)
  | groupRefreshFailed (group error : String)
  /-- A request was answered with a status that blames the server. -/
  | requestFailed (error : String) (status : Nat)
  /-- An earlier operation broke off while it held the lock. -/
  | lockRecovered
  | refreshLoopFailed (error : String)
  deriving DecidableEq, Repr

namespace Notice

inductive Level where
  | warning
  | error
  deriving DecidableEq, Repr

def level : Notice → Level
  | refreshLoopFailed _ => .error
  | _ => .warning

def message : Notice → String
  | fewerUnits .. => "fewer new units visible than requested"
  | removalRejected .. => "fleet rejected unit removal"
  | groupRefreshFailed .. => "node group refresh failed"
  | requestFailed .. => "provider operation failed"
  | lockRecovered => "provider lock poisoned by a failed operation, recovering"
  | refreshLoopFailed _ => "node group refresh failed"

def fields : Notice → List (String × String)
  | fewerUnits application requested detected =>
    [("application", application), ("requested", toString requested), ("detected", toString detected)]
  | removalRejected unit error => [("unit", unit), ("error", error)]
  | groupRefreshFailed group error => [("group", group), ("error", error)]
  | requestFailed error status => [("error", error), ("status", toString status)]
  | lockRecovered => []
  | refreshLoopFailed error => [("error", error)]

end Notice
end NodeGroups
