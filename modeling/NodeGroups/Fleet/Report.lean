import NodeGroups.Fleet.Snapshot
import NodeGroups.Json.Decoder
import NodeGroups.Json.Value

/-! Snapshots as JSON reports. -/
namespace NodeGroups.Fleet
open Json (Value Decoder)
open Json.Decoder (field)

/-! ## Writing -/

/-- An empty message is left out. -/
def Health.toJson (h : Health) : Value :=
  .record (("current", .str h.current) :: if h.message.isEmpty then [] else [("message", .str h.message)])

def UnitStatus.toJson (s : UnitStatus) : Value :=
  .record [("juju-status", s.agent.toJson), ("workload-status", s.workload.toJson), ("machine", .str s.machine)]

mutual
/-- A machine without containers has no field for them. -/
def Machine.toJson : Machine → Value
  | ⟨hostname, dnsName, instanceId, containers⟩ =>
    .record ([("hostname", .str hostname), ("dns-name", .str dnsName), ("instance-id", .str instanceId)] ++
      if containers.isEmpty then [] else [("containers", .record (Machine.members containers))])

def Machine.members : List (String × Machine) → List (String × Value)
  | [] => []
  | (id, m) :: rest => (id, m.toJson) :: Machine.members rest
end

def unitsToJson (units : Table UnitStatus) : Value := .record (units.map fun _ s => s.toJson).entries

def Snapshot.toJson (s : Snapshot) : Value :=
  .record [
    ("applications", .record (s.applications.map fun _ us => .record [("units", unitsToJson us)]).entries),
    ("machines", .record (Machine.members s.machines))]

/-! ## Reading -/

def Health.decoder : Decoder Health :=
  .record [
    field "current" .string fun v h => { h with current := v },
    field "message" .string fun v h => { h with message := v }] {}

def UnitStatus.decoder : Decoder UnitStatus :=
  .record [
    field "juju-status" Health.decoder fun v s => { s with agent := v },
    field "workload-status" Health.decoder fun v s => { s with workload := v },
    field "machine" .string fun v s => { s with machine := v }] {}

def unitsDecoder : Decoder (Table UnitStatus) := .record [field "units" (.table UnitStatus.decoder) fun v _ => v] ∅

/-- Decodes a machine whose containers nest at most so many levels. -/
def Machine.decoderTo : Nat → Decoder Machine
  | 0 => .record [] {}
  | levels + 1 =>
    .record [
      field "hostname" .string fun v m => { m with hostname := v },
      field "dns-name" .string fun v m => { m with dnsName := v },
      field "instance-id" .string fun v m => { m with instanceId := v },
      field "containers" (.entries (Machine.decoderTo levels)) fun v m => { m with containers := v }] {}

/-- Every level of containers takes two of the text, so the bound on the text comes first. -/
def Machine.decoder : Decoder Machine := decoderTo Json.maxDepth

def Snapshot.decoder : Decoder Snapshot :=
  .record [
    field "applications" (.table unitsDecoder) fun v s => { s with applications := v },
    field "machines" (.entries Machine.decoder) fun v s => { s with machines := v }] {}

/-- The snapshot of a report. -/
def Snapshot.ofReport (bs : List UInt8) : Except Json.Fault Snapshot := Snapshot.decoder.decode bs

end NodeGroups.Fleet
