import NodeGroups.Fleet.Report
import NodeGroups.Fleet.Request
import NodeGroups.Text.Blank

/-! Fleets that are reached through the juju command line. -/
namespace NodeGroups
open Fleet (Request Snapshot)

/-- How juju is called. -/
structure Juju.Settings where
  binary : Option String := none
  controller : Option String := none
  /-- Where juju keeps its data. -/
  dataDir : Option String := none
  deriving DecidableEq, Repr

/-- One model of a controller. -/
structure Juju where
  binary : String := "juju"
  /-- As juju is to be told it. -/
  model : String
  dataDir : Option String := none
  deriving DecidableEq, Repr

namespace Juju

def ofSettings (s : Settings) (model : String) : Juju where
  binary := s.binary.getD "juju"
  model := s.controller.elim model fun c => c ++ ":" ++ model
  dataDir := s.dataDir

/-! ## Calls -/

def arguments (j : Juju) : Request → List String
  | .status patterns => ["status", "-m", j.model, "--format=json"] ++ patterns
  | .addUnits application count => ["add-unit", "-m", j.model, "-n", toString count, application]
  | .destroyUnits units destroyStorage force =>
    ["remove-unit", "-m", j.model, "--no-prompt"] ++ (if destroyStorage then ["--destroy-storage"] else []) ++
      (if force then ["--force"] else []) ++ units

/-- A program that is to run. -/
structure Invocation where
  binary : String
  arguments : List String
  /-- The value of `JUJU_DATA`, if it is set for the program. -/
  dataDir : Option String
  deriving DecidableEq, Repr

def invocation (j : Juju) (r : Request) : Invocation where
  binary := j.binary
  arguments := j.arguments r
  dataDir := j.dataDir

/-- What a program that ended has written, and its exit code unless it was killed. -/
structure Output where
  stdout : List UInt8 := []
  stderr : List UInt8 := []
  code : Option Nat := some 0
  deriving DecidableEq, Repr

inductive Ending where
  | notStarted (reason : String)
  | ended (output : Output)
  deriving DecidableEq, Repr

/-! ## Answers -/

/-- The name under which a call is reported. -/
def commandName : Request → String
  | .status _ => "juju status"
  | .addUnits .. => "juju add-unit"
  | .destroyUnits .. => "juju remove-unit"

/-- The answer of a call that succeeded. Juju names no units that it adds, and rejects no single unit. -/
def success (stdout : List UInt8) : (r : Request) → Fleet.Outcome r
  | .status _ => (Snapshot.ofReport stdout).mapError fun fault => .decode fault.describe
  | .addUnits .. => .ok []
  | .destroyUnits units _ _ => .ok (units.map fun unit => { unit, error := none })

def outcome (j : Juju) (r : Request) : Ending → Fleet.Outcome r
  | .notStarted reason => .error (.transport ("failed to execute " ++ j.binary ++ ": " ++ reason))
  | .ended o =>
    if o.code = some 0 then success o.stdout r
    else .error (.command (commandName r) (o.code.map Int.ofNat) (Text.trim (Text.Utf8.repair o.stderr)))

end Juju
end NodeGroups
