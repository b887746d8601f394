import NodeGroups.Operation
import NodeGroups.TrackedUnit

/-! Managers, which keep track of the units of one application. -/
namespace NodeGroups
open Fleet (IdentitySource Snapshot UnitStatus)

structure Manager where
  source : IdentitySource
  model : String
  application : String
  /-- The tracked units by id. -/
  units : Table TrackedUnit := ∅
  /-- Units that were dropped while the fleet still listed them. They are not taken up again before the fleet stops
  listing them. -/
  retired : Table Unit := ∅

namespace Manager

inductive Error where
  | fleet (e : Fleet.Error)
  | unitNotFound (identity : String)
  deriving DecidableEq, Repr

def Error.message : Error → String
  | fleet e => e.message
  | unitNotFound identity => "unit with node identity " ++ identity ++ " not found"

/-! ## Views -/

def size (m : Manager) : Nat := m.units.size

def unit? (m : Manager) (id : String) : Option TrackedUnit := m.units.get? id

/-- What a look-up finds that goes over units in that order: the first whose node has that name. The empty name is
nobody's. -/
def lookupIn (scan : List (String × TrackedUnit)) (node : String) : Option (String × TrackedUnit) :=
  if node.isEmpty then none else scan.find? fun e => e.2.identity == node

/-- What a removal finds that goes over units in that order: the first that is resolved to that name. -/
def backingIn (scan : List (String × TrackedUnit)) (node : String) : Option (String × TrackedUnit) :=
  scan.find? fun e => e.2.isResolved && e.2.identity == node

/-- The unit whose node has that name. -/
def lookup? (m : Manager) (node : String) : Option (String × TrackedUnit) := lookupIn m.units.entries node

/-- The unit that is resolved to that name. -/
def backing? (m : Manager) (node : String) : Option (String × TrackedUnit) := backingIn m.units.entries node

/-! ## Start -/

/-- Tracks every listed unit in the phase that its status shows. -/
def ofSnapshot (source : IdentitySource) (model application : String) (s : Snapshot) : Manager where
  source
  model
  application
  units := (s.unitsOf application).map fun id status =>
    { externalId := id, phase := .observed status, identity := (source.resolve s status).getD "", status }

abbrev Op (α : Type) : Type := Operation Unit Manager (Except Error α)

def init (source : IdentitySource) (model application : String) : Operation Unit Unit (Except Error Manager) :=
  .call () () (.status [application]) fun
    | .ok s => .done () (.ok (ofSnapshot source model application s))
    | .error e => .done () (.error (.fleet e))

/-- Goes on with the status of the application. -/
def fetch {α : Type} (m : Manager) (next : Snapshot → Op α) : Op α :=
  .call m () (.status [m.application]) fun
    | .ok s => next s
    | .error e => .done m (.error (.fleet e))

/-! ## More units -/

/-- The units that came up between two snapshots and are not tracked. -/
def fresh (m : Manager) (before after : Snapshot) : Table UnitStatus :=
  (after.unitsOf m.application).filter fun id _ => !before.lists m.application id && !m.units.contains id

def track (m : Manager) (units : List (String × UnitStatus)) : Manager :=
  { m with units := units.foldl (fun t (id, status) => t.insert id { externalId := id, phase := .creating, status }) m.units }

/-- Asks for more units, and tracks those that come up. How many these are is counted without a bound, as no fleet lists
as many units as would not fit into a word of 32 bits. -/
def scaleUp (m : Manager) (count : Nat) : Op Unit :=
  if count = 0 then .done m (.ok ())
  else
    m.fetch fun before =>
      .call m () (.addUnits m.application count) fun
        | .error e => .done m (.error (.fleet e))
        | .ok _ =>
          m.fetch fun after =>
            let fresh := m.fresh before after
            .warnAll (if fresh.size < count then [.fewerUnits m.application count fresh.size] else [])
              (.done (m.track fresh.entries) (.ok ()))

/-! ## Fewer units -/

/-- The tracked unit is to go away. -/
def mark (m : Manager) (id : String) (u : TrackedUnit) : Manager :=
  { m with units := m.units.insert id { u with phase := .deleting } }

/-- Removes the unit of a node, looking for it in that order. It counts as deleted even if the fleet fails to remove
it. -/
def scaleDownIn (m : Manager) (scan : List (String × TrackedUnit)) (node : String) : Op Unit :=
  match backingIn scan node with
  | none => .done m (.error (.unitNotFound node))
  | some (id, u) =>
    let m := m.mark id u
    .call m () (.destroyUnits [id] false false) fun
      | .error e => .done m (.error (.fleet e))
      | .ok removals =>
        .warnAll (removals.filterMap fun r => r.error.map (.removalRejected r.unit)) (.done m (.ok ()))

def scaleDown (m : Manager) (node : String) : Op Unit := m.scaleDownIn m.units.entries node

/-! ## Reconciliation -/

/-- Takes over the status of one listed unit. A unit that is neither tracked nor retired is taken up once it is
ready. -/
def observe (m : Manager) (s : Snapshot) (id : String) (status : UnitStatus) : Manager :=
  let name := m.source.resolve s status
  match m.units.get? id with
  | some u => { m with units := m.units.insert id ((u.resolve name).observe status) }
  | none =>
    if m.retired.contains id || !status.isReady then m
    else
      { m with units := m.units.insert id { externalId := id, phase := .running, identity := name.getD "", status } }

def observeAll (m : Manager) (s : Snapshot) (listed : List (String × UnitStatus)) : Manager :=
  listed.foldl (fun m (id, status) => m.observe s id status) m

/-- Retired units that are no longer listed are forgotten. -/
def forget (m : Manager) (listed : Table UnitStatus) : Manager :=
  { m with retired := m.retired.filter fun id _ => listed.contains id }

/-- Tracked units that are no longer listed are gone. -/
def markMissing (m : Manager) (listed : Table UnitStatus) : Manager :=
  { m with units := m.units.map fun id u => if listed.contains id then u else { u with phase := .deleting } }

/-- Drops the deleted units, and retires those that are still listed. -/
def dropDeleted (m : Manager) (listed : Table UnitStatus) : Manager :=
  let deleted := m.units.filter fun _ u => u.phase == .deleting
  { m with
    units := m.units.filter fun _ u => u.phase != .deleting
    retired := deleted.keys.foldl (fun t id => if listed.contains id then t.insert id () else t) m.retired }

/-- Brings the tracked units in line with a snapshot, whose units of the application are looked at in the order of
`listed`. -/
def reconciledBy (m : Manager) (s : Snapshot) (listed : List (String × UnitStatus)) : Manager :=
  let units := s.unitsOf m.application
  (((m.forget units).observeAll s listed).markMissing units).dropDeleted units

def reconciled (m : Manager) (s : Snapshot) : Manager := m.reconciledBy s (s.unitsOf m.application).entries

def reconcile (m : Manager) : Op Unit := m.fetch fun s => .done (m.reconciled s) (.ok ())

end Manager
end NodeGroups
