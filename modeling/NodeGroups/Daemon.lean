import NodeGroups.Api
import NodeGroups.Config
import NodeGroups.Daemon.Arguments
import NodeGroups.Daemon.Failure
import NodeGroups.Juju.Runner

/-! The daemon: it sets the configured groups up, and reports on them or serves them. -/
namespace NodeGroups.Daemon
open Json (Value)
open Juju (Runner)

/-! ## Start -/

/-- The configuration and the specs of all groups, of which there is at least one. -/
def load (file : String → Except String (List UInt8)) (o : Options) : Except Failure (Config × List Spec) := do
  let config ← (Config.ofFile o.config (file o.config)).mapError (.ofConfig o.config)
  let specs ← (config.specs o.nodes).mapError fun e => { message := e.message }
  if specs.isEmpty then throw { message := "no node groups configured" }
  return (config, specs)

/-- The clients of the groups, each for the model of its group. -/
def client (config : Config) (specs : List Spec) (i : Nat) : Juju :=
  .ofSettings config.juju (specs[i]?.elim "" (·.model))

/-- A provider that is set up, and how its fleets are reached. -/
structure Setup (φ : Type) where
  config : Config
  provider : Provider
  fleets : Operation.Fleets φ Nat

/-- Loads the configuration and sets its groups up. -/
def setUp {φ : Type} (run : Runner φ) (s : φ) (file : String → Except String (List UInt8)) (o : Options) :
    φ × Except Failure (Setup φ) :=
  match load file o with
  | .error f => (s, .error f)
  | .ok (config, specs) =>
    let fleets := run.fleets (client config specs)
    let r := (Provider.start config.identity specs).run fleets s
    match r.value with
    | some (.ok provider) => (r.fleets, .ok { config, provider, fleets })
    | some (.error e) => (r.fleets, .error (.ofStart e))
    | none => (r.fleets, .error (.ofStart .brokenOff))

/-! ## Reports -/

def groupReport (g : Group) : Value :=
  .record [("group", g.summary.toJson), ("nodes", .list (g.nodes.map (·.toJson)))]

def report (p : Provider) : Value :=
  .record [("provider", .str Provider.name), ("node_groups", .list (p.groups.map groupReport))]

/-! ## Service -/

structure Server (φ : Type) where
  handle : Handle
  condition : φ
  fleets : Operation.Fleets φ Nat
  /-- The number of the socket. -/
  listen : Nat
  /-- Time between two refreshes. -/
  interval : Duration

/-- A given interval goes before the configured one. -/
def Setup.server {φ : Type} (s : Setup φ) (condition : φ) (listen : Nat) (refreshInterval : Option Nat) :
    Except Failure (Server φ) := do
  let failed (e : Config.Error) : Failure := { message := e.message }
  let interval ← refreshInterval.elim (s.config.interval.mapError failed) fun n => .ok (.ofSeconds n)
  let timeout ← s.config.timeout.mapError failed
  return { handle := { provider := s.provider, timeout }, condition, fleets := s.fleets, listen, interval }

def Server.answer {φ : Type} (s : Server φ) (r : Http.Request) : Server φ × Http.Response :=
  let x := Api.answer s.handle s.fleets s.condition r.received
  ({ s with handle := x.handle, condition := x.fleets }, x.response)

/-- The responses to requests one after another. -/
def Server.answerAll {φ : Type} (s : Server φ) : List Http.Request → Server φ × List Http.Response
  | [] => (s, [])
  | r :: rs =>
    let (s, response) := s.answer r
    let (s, responses) := s.answerAll rs
    (s, response :: responses)

/-! ## Commands -/

/-- How the daemon came to an end. -/
inductive Ending (φ : Type) where
  | help
  | usage
  | failed (condition : φ) (failure : Failure)
  | reported (condition : φ) (report : Value)
  /-- It is ready to serve. -/
  | serving (server : Server φ)

/-- `file` reads a configuration file, or gives the system's reason why it cannot. -/
def launch {φ : Type} (run : Runner φ) (s : φ) (file : String → Except String (List UInt8))
    (args : List String) : Ending φ :=
  match Arguments.parse args with
  | .error .help => .help
  | .error .usage => .usage
  | .ok (.status o) =>
    match setUp run s file o with
    | (s, .error f) => .failed s f
    | (s, .ok setup) => .reported s (report setup.provider)
  | .ok (.run o listen refreshInterval) =>
    match setUp run s file o with
    | (s, .error f) => .failed s f
    | (s, .ok setup) =>
      match setup.server s listen refreshInterval with
      | .error f => .failed s f
      | .ok server => .serving server

/-- Arguments that are wrong have a code of their own. -/
def Ending.code {φ : Type} : Ending φ → Nat
  | help | reported .. | serving _ => 0
  | usage => 2
  | failed .. => 1

end NodeGroups.Daemon
