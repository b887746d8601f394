import NodeGroups.Config.Error
import NodeGroups.Fleet.Snapshot
import NodeGroups.Juju
import NodeGroups.Toml.Document
import NodeGroups.Toml.Record

/-! Configurations: which node groups there are, and how they are looked after. -/
namespace NodeGroups
open Fleet (IdentitySource)
open Toml (Record Value)

structure Config where
  juju : Juju.Settings := {}
  refreshInterval : String := "10s"
  operationTimeout : String := "2m"
  identity : IdentitySource := .hostname
  /-- The specs of the groups as they are written. -/
  groups : List String := []
  deriving DecidableEq, Repr

namespace Config

/-! ## Reading -/

def readJuju (v : Value) : Option Juju.Settings := do
  let r ← v.record?
  return {
    binary := ← r.optionalText "binary" 0
    controller := ← r.optionalText "controller" 1
    dataDir := ← r.optionalText "data_dir" 2 }

/-- A source is named by a text, or by the only key of a table. -/
def readIdentity (v : Value) : Option IdentitySource :=
  match v.text?.or v.loneKey? with
  | some "hostname" => some .hostname
  | some "dns-name" => some .dnsName
  | _ => none

def readManager (c : Config) (v : Value) : Option Config := do
  let r ← v.record?
  return { c with
    refreshInterval := ← r.getD "refresh_interval" 0 (·.text?) c.refreshInterval
    operationTimeout := ← r.getD "operation_timeout" 1 (·.text?) c.operationTimeout
    identity := ← r.getD "node_identity" 2 readIdentity c.identity }

def readGroups (v : Value) : Option (List String) := do
  (← v.items?).mapM fun v => do (← v.record?).text "spec" 0

/-- Takes what is known from the top of a document; the rest does not matter. -/
def read (top : Toml.Entries) : Option Config := do
  let r : Record := .named top
  let juju ← r.getD "juju" 0 readJuju {}
  let c ← r.getD "manager" 1 (readManager {}) {}
  let groups ← r.getD "node_groups" 2 readGroups []
  return { c with juju, groups }

/-! ## Meaning -/

def interval (c : Config) : Except Error Duration := duration c.refreshInterval

def timeout (c : Config) : Except Error Duration := duration c.operationTimeout

/-- Adds a spec whose group is not among those before it. -/
def addSpec (specs : List Spec) (text : String) : Except Error (List Spec) := do
  let s ← spec text
  if specs.any (·.id == s.id) then throw (.duplicateGroup s.id)
  return specs ++ [s]

/-- The specs of the configuration, and others behind them. -/
def specs (c : Config) (extra : List String) : Except Error (List Spec) := (c.groups ++ extra).foldlM addSpec []

def nonZero (field : String) (d : Duration) : Except Error Unit :=
  if d.isZero then .error (.zeroDuration field) else .ok ()

/-- The durations are positive, and the specs are sound. -/
def validate (c : Config) : Except Error Unit := do
  nonZero "refresh_interval" (← c.interval)
  nonZero "operation_timeout" (← c.timeout)
  let _ ← c.specs []

def parse (s : String) : Except Error Config := do
  let c ← ((Toml.parse? s).bind read).elim (.error .parse) .ok
  c.validate
  return c

/-- The configuration in a file, of which the system has given the bytes or told why there are none. -/
def ofFile (path : String) (content : Except String (List UInt8)) : Except Error Config := do
  let bytes ← content.mapError (.read path)
  let s ← (Text.Utf8.decode? bytes).elim (.error (.read path "stream did not contain valid UTF-8")) .ok
  parse s

end Config
end NodeGroups
