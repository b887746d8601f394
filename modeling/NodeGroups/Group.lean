import NodeGroups.Json.Value
import NodeGroups.Provider.Error
import NodeGroups.Spec

/-! Node groups: a manager with bounds on the number of its units and a target for it. -/
namespace NodeGroups
open Provider (Error)

structure Group where
  id : String
  minSize : Nat
  maxSize : Nat
  /-- How many units there are to be. It moves only when the fleet has accepted a request. -/
  target : Nat
  manager : Manager

namespace Group

abbrev Op (α : Type) : Type := Operation Unit Group (Except Error α)

def ofManager (spec : Spec) (m : Manager) : Group where
  id := spec.id
  minSize := spec.minSize
  maxSize := spec.maxSize
  target := m.size
  manager := m

/-! ## Views -/

/-- How many units are tracked. -/
def size (g : Group) : Nat := g.manager.size

/-- How many nodes are to stay. -/
def registered (g : Group) : Nat := g.manager.units.values.countP (·.isRegistered)

def contains (g : Group) (node : String) : Bool := (g.manager.lookup? node).isSome

/-- A unit as an autoscaler sees it. -/
structure Instance where
  unit : String
  /-- Absent as long as no name of the node is known. -/
  node : Option String
  phase : Phase
  deriving DecidableEq, Repr

/-- In ascending order of unit. -/
def nodes (g : Group) : List Instance :=
  g.manager.units.entries.map fun (id, u) =>
    { unit := id, node := if u.isResolved then some u.identity else none, phase := u.phase }

structure Summary where
  id : String
  model : String
  application : String
  minSize : Nat
  maxSize : Nat
  target : Nat
  size : Nat
  deriving DecidableEq, Repr

def summary (g : Group) : Summary where
  id := g.id
  model := g.manager.model
  application := g.manager.application
  minSize := g.minSize
  maxSize := g.maxSize
  target := g.target
  size := g.size

def describe (g : Group) : String :=
  g.id ++ " (min: " ++ toString g.minSize ++ ", max: " ++ toString g.maxSize ++ ", target: " ++ toString g.target ++
    ", size: " ++ toString g.size ++ ")"

/-! ## Operations -/

/-- An operation of the manager, and what it makes of the group. -/
def byManager (g : Group) (op : Manager.Op Unit) (next : Group → Op Unit) : Op Unit :=
  op.bindIn (fun f => f) (fun m => { g with manager := m }) fun m result =>
    let g := { g with manager := m }
    match result with
    | .ok () => next g
    | .error e => .done g (.error (.manager e))

/-- Two to the power of 32, one more than the most units that one request can ask for. -/
def requestBound : Nat := 4294967296

/-- Adds units up to the maximum. -/
def increaseSize (g : Group) (delta : Nat) : Op Unit :=
  let desired := g.target + delta
  let tooLarge (n : Nat) : Op Unit := .done g (.error (.increaseTooLarge g.target n g.maxSize))
  if delta = 0 then .done g (.error (.invalidDelta delta))
  else if Text.naturalBound ≤ desired then tooLarge (Text.naturalBound - 1)
  else if g.maxSize < desired then tooLarge desired
  else if requestBound ≤ delta then tooLarge desired
  else g.byManager (g.manager.scaleUp delta) fun g => .done { g with target := desired } (.ok ())

/-- Removes the units of the nodes one by one, up to the first failure. -/
def deleteNodes (g : Group) : List String → Op Unit
  | [] => .done g (.ok ())
  | node :: rest =>
    if g.target = 0 ∨ g.target - 1 < g.minSize then
      .done g (.error (.decreaseTooLarge g.target (g.target - 1) g.minSize))
    else
      g.byManager (g.manager.scaleDown node) fun g => deleteNodes { g with target := g.target - 1 } rest

/-- Gives up units that were asked for and never came up. -/
def decreaseTarget (g : Group) (delta : Nat) : Op Unit :=
  let desired := g.target - delta
  if delta = 0 then .done g (.error (.invalidDelta delta))
  else if g.target < delta ∨ desired < g.minSize then
    .done g (.error (.decreaseTooLarge g.target desired g.minSize))
  else if desired < g.registered then .done g (.error (.wouldDeleteNodes g.target desired g.registered))
  else .done { g with target := desired } (.ok ())

/-- Reconciles with the fleet, and takes over its size as the target. -/
def refresh (g : Group) : Op Unit :=
  g.byManager g.manager.reconcile fun g => .done { g with target := g.size } (.ok ())

/-! ## Reports -/

open Json (Value)

def Instance.toJson (i : Instance) : Value :=
  .record [("unit", .str i.unit), ("node", .ofText? i.node), ("phase", .str i.phase.name)]

def Summary.toJson (s : Summary) : Value :=
  .record [("id", .str s.id), ("model", .str s.model), ("application", .str s.application),
    ("min_size", .num s.minSize), ("max_size", .num s.maxSize), ("target_size", .num s.target), ("size", .num s.size)]

end Group
end NodeGroups
