import NodeGroups.Duration
import NodeGroups.Manager

/-! Why an operation on node groups fails. -/
namespace NodeGroups.Provider

inductive Error where
  | manager (e : Manager.Error)
  /-- A group cannot be set up. -/
  | start (group : String) (e : Manager.Error)
  | groupNotFound (id : String)
  | invalidDelta (delta : Nat)
  | increaseTooLarge (current desired max : Nat)
  | decreaseTooLarge (current desired min : Nat)
  | wouldDeleteNodes (current desired registered : Nat)
  | timeout (limit : Duration)
  /-- The operation broke off. -/
  | task (reason : String)
  deriving DecidableEq, Repr

/-- What a caller is told of an operation that broke off. -/
def Error.brokenOff : Error := .task "the operation broke off"

def Error.message : Error → String
  | manager e => e.message
  | start group e => "failed to initialize node group " ++ group ++ ": " ++ e.message
  | groupNotFound id => "node group not found: " ++ id
  | invalidDelta delta => "delta must be positive, have: " ++ toString delta
  | increaseTooLarge current desired max =>
    "size increase is too large. current: " ++ toString current ++ " desired: " ++ toString desired ++
      " max: " ++ toString max
  | decreaseTooLarge current desired min =>
    "size decrease is too large. current: " ++ toString current ++ " desired: " ++ toString desired ++
      " min: " ++ toString min
  | wouldDeleteNodes current desired registered =>
    "attempt to delete existing nodes. target: " ++ toString current ++ " desired: " ++ toString desired ++
      " registered: " ++ toString registered
  | timeout limit => "operation timed out after " ++ limit.render
  | task reason => "provider task failed: " ++ reason

end NodeGroups.Provider
