import NodeGroups.Table

/-! What a fleet says about its applications, units and machines at one moment. -/
namespace NodeGroups.Fleet

/-- How an agent or a workload is. -/
structure Health where
  current : String := ""
  message : String := ""
  deriving DecidableEq, Repr, Inhabited

structure UnitStatus where
  agent : Health := {}
  workload : Health := {}
  /-- Empty as long as the unit has no machine. -/
  machine : String := ""
  deriving DecidableEq, Repr, Inhabited

/-- The agent has nothing to do and the workload is up. -/
def UnitStatus.isReady (s : UnitStatus) : Bool := s.agent.current == "idle" && s.workload.current == "active"

/-- A machine and the containers on it by id. -/
structure Machine where
  hostname : String := ""
  dnsName : String := ""
  instanceId : String := ""
  containers : List (String × Machine) := []
  deriving Repr, Inhabited

structure Snapshot where
  /-- The units of each application. -/
  applications : Table (Table UnitStatus) := ∅
  machines : List (String × Machine) := []

instance : Inhabited Snapshot := ⟨{}⟩

mutual
/-- The container of that id on a machine: one directly on it, else one further inside. -/
def Machine.container? (id : String) : Machine → Option Machine
  | ⟨_, _, _, containers⟩ => (containers.lookup id).or (Machine.within? id containers)

/-- The first container of that id on any of the machines. -/
def Machine.within? (id : String) : List (String × Machine) → Option Machine
  | [] => none
  | (_, m) :: rest => (m.container? id).or (Machine.within? id rest)
end

namespace Snapshot

def unitsOf? (s : Snapshot) (application : String) : Option (Table UnitStatus) := s.applications.get? application

/-- No units if the application is not listed. -/
def unitsOf (s : Snapshot) (application : String) : Table UnitStatus := (s.unitsOf? application).getD ∅

def unit? (s : Snapshot) (application unit : String) : Option UnitStatus := (s.unitsOf application).get? unit

def lists (s : Snapshot) (application unit : String) : Bool := (s.unitsOf application).contains unit

/-- The machine or container of that id, outermost first. -/
def machine? (s : Snapshot) (id : String) : Option Machine :=
  (s.machines.lookup id).or (Machine.within? id s.machines)

end Snapshot

/-- Which name of a machine the node on it registers with. -/
inductive IdentitySource where
  | hostname
  | dnsName
  deriving DecidableEq, Repr

namespace IdentitySource

def of (source : IdentitySource) (m : Machine) : String :=
  match source with
  | hostname => m.hostname
  | dnsName => m.dnsName

/-- The name that the machine of a unit has, once there is one. -/
def resolve (source : IdentitySource) (s : Snapshot) (status : UnitStatus) : Option String :=
  if status.machine.isEmpty then none
  else ((s.machine? status.machine).map source.of).filter fun name => !name.isEmpty

end IdentitySource
end NodeGroups.Fleet
