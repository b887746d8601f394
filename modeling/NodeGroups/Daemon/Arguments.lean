import NodeGroups.Text.Natural

/-! The command line of the daemon. -/
namespace NodeGroups.Daemon

/-- The options of both commands. -/
structure Options where
  config : String
  /-- Specs of more groups. -/
  nodes : List String
  deriving DecidableEq, Repr

inductive Command where
  /-- Report on every group once. -/
  | status (options : Options)
  /-- Look after the groups and serve them on a socket. The interval is in seconds, and goes before the configured
  one. -/
  | run (options : Options) (listen : Nat) (refreshInterval : Option Nat)
  deriving DecidableEq, Repr

def Command.options : Command → Options
  | status o => o
  | run o _ _ => o

/-- Why no command is carried out: help is wanted, or the arguments are wrong. -/
inductive Stop where
  | help
  | usage
  deriving DecidableEq, Repr

namespace Arguments

/-! ## Options -/

inductive Key where
  | config
  | nodes
  | listen
  | refreshInterval
  deriving DecidableEq, Repr

def Key.name : Key → String
  | config => "config"
  | nodes => "nodes"
  | listen => "port"
  | refreshInterval => "refresh-interval"

/-- The options given so far. -/
structure Given where
  config : Option String := none
  nodes : List String := []
  listen : Option Nat := none
  refreshInterval : Option Nat := none

/-- The number of a TCP socket, which may have a sign. -/
def socket? (s : String) : Option Nat :=
  match s.toList with
  | '-' :: ds => if ds.head? == some '+' then none else (Text.natural? ds).filter (· == 0)
  | ds => (Text.natural? ds).filter (· < 65536)

/-- A positive number of seconds. -/
def seconds? (s : String) : Option Nat := (Text.natural? s.toList).filter (0 < ·)

/-- Sets what can be set once. -/
def once {α : Type} (old new : Option α) : Option (Option α) := if old.isSome || new.isNone then none else some new

/-- Only specs may be given more than once; whether they are sound does not matter yet. -/
def Given.set (g : Given) (k : Key) (v : String) : Option Given :=
  match k with
  | .config => (once g.config (if v.isEmpty then none else some v)).map fun config => { g with config }
  | .nodes => some { g with nodes := g.nodes ++ [v] }
  | .listen => (once g.listen (socket? v)).map fun listen => { g with listen }
  | .refreshInterval => (once g.refreshInterval (seconds? v)).map fun refreshInterval => { g with refreshInterval }

/-! ## Arguments -/

/-- An argument by itself. -/
inductive Form where
  | help
  /-- Ends the options. -/
  | stop
  | key (k : Key)
  | setting (k : Key) (value : String)
  | unknown

/-- The name of an option, and the value behind an equals sign. -/
def splitSetting (cs : List Char) : String × Option String :=
  let name := String.ofList (cs.takeWhile (· != '='))
  match cs.dropWhile (· != '=') with
  | [] => (name, none)
  | _ :: value => (name, some (String.ofList value))

def form (keys : List Key) (s : String) : Form :=
  match s.toList with
  | ['-', '-'] => .stop
  | '-' :: '-' :: rest =>
    let (name, value) := splitSetting rest
    match keys.find? (·.name == name), value with
    | some k, none => .key k
    | some k, some v => .setting k v
    | none, none => if name == "help" then .help else .unknown
    | none, some _ => .unknown
  | '-' :: 'h' :: _ => .help
  | _ => .unknown

/-- May be the value of the option before it. -/
def isValue (s : String) : Bool := s == "-" || s.toList.head? != some '-'

/-- Takes the arguments of a command one by one, up to the first that is wrong or asks for help. -/
def collect (keys : List Key) (g : Given) : List String → Except Stop Given
  | [] => .ok g
  | a :: rest =>
    match form keys a, rest with
    | .help, _ => .error .help
    | .stop, [] => .ok g
    | .setting k v, rest => (g.set k v).elim (.error .usage) fun g => collect keys g rest
    | .key k, v :: rest =>
      if isValue v then (g.set k v).elim (.error .usage) fun g => collect keys g rest else .error .usage
    | _, _ => .error .usage

def Given.options (g : Given) : Except Stop Options :=
  g.config.elim (.error .usage) fun config => .ok { config, nodes := g.nodes }

def defaultSocket : Nat := 8086

/-- Help can be asked for on the whole, or on one command. -/
def isHelpTopic (rest : List String) : Bool :=
  match rest with
  | [] => true
  | [topic] => topic == "run" || topic == "status" || topic == "help"
  | _ => false

def parse : List String → Except Stop Command
  | "status" :: rest => do
    let g ← collect [.config, .nodes] {} rest
    return .status (← g.options)
  | "run" :: rest => do
    let g ← collect [.config, .nodes, .listen, .refreshInterval] {} rest
    return .run (← g.options) (g.listen.getD defaultSocket) g.refreshInterval
  | "help" :: rest => .error (if isHelpTopic rest then .help else .usage)
  | a :: _ =>
    match form [] a with
    | .help => .error .help
    | _ => .error .usage
  | [] => .error .usage

end Arguments
end NodeGroups.Daemon
