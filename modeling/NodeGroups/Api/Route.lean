import NodeGroups.Http.Target

/-! Routes of the API. -/
namespace NodeGroups.Api

/-- Group ids and names of nodes are as they stand in the path. -/
inductive Route where
  | health
  | groups
  | group (id : String)
  | nodes (id : String)
  | increaseSize (id : String)
  | deleteNodes (id : String)
  | decreaseTarget (id : String)
  | groupOfNode (node : String)
  | refresh
  deriving DecidableEq, Repr

namespace Route

/-- The text between the slashes of a path. -/
def segments (path : List Char) : List String := (path.splitOn '/').map String.ofList

def ofSegments? : List String → Option Route
  | ["", "healthz"] => some health
  | "" :: "api" :: "v1" :: rest =>
    match rest with
    | ["node-groups"] => some groups
    | ["node-groups", id] => if id.isEmpty then none else some (group id)
    | ["node-groups", id, "nodes"] => some (nodes id)
    | ["node-groups", id, "increase-size"] => some (increaseSize id)
    | ["node-groups", id, "delete-nodes"] => some (deleteNodes id)
    | ["node-groups", id, "decrease-target-size"] => some (decreaseTarget id)
    | ["nodes", node, "node-group"] => some (groupOfNode node)
    | ["refresh"] => some refresh
    | _ => none
  | _ => none

/-- The route of the path in a target. Where an address leads to does not matter. -/
def ofTarget? (target : String) : Option Route := ofSegments? (segments (Http.Target.path target.toList))

/-- The route reads, and so has no body. -/
def isReading : Route → Bool
  | health | groups | group _ | nodes _ | groupOfNode _ => true
  | increaseSize _ | deleteNodes _ | decreaseTarget _ | refresh => false

/-- Reading routes are got, with or without the body of the answer; to the others one posts. -/
def allows (r : Route) (method : String) : Bool :=
  if r.isReading then method == "GET" || method == "HEAD" else method == "POST"

end Route
end NodeGroups.Api
