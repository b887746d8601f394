import NodeGroups.Daemon
import NodeGroups.Daemon.Feed
import NodeGroups.Juju.Host

/-! The command line. Neither juju nor a connection is opened from here: how the runs of juju end, and which requests
come in, is read from standard input. -/
namespace NodeGroups

def usage : String :=
  "Usage: (status | run) --config PATH [--nodes MIN:MAX:MODEL:APPLICATION]...\n" ++
    "run also takes --port PORT and --refresh-interval SECONDS."

/-- The text of the system for an error on a file. -/
def systemText : IO.Error → String
  | .noFileOrDirectory .. => "No such file or directory (os error 2)"
  | .inappropriateType .. => "Is a directory (os error 21)"
  | .permissionDenied .. => "Permission denied (os error 13)"
  | e => toString e

def readFile (path : String) : IO (Except String (List UInt8)) := do
  match ← (IO.FS.readBinFile path).toBaseIO with
  | .ok bytes => return .ok bytes.data.toList
  | .error e => return .error (systemText e)

partial def readLines (input : IO.FS.Stream) (read : List String) : IO (List String) := do
  let line ← input.getLine
  if line.isEmpty then return read.reverse else readLines input (line :: read)

def readConfig (args : List String) : IO (Except String (List UInt8)) := do
  match Daemon.Arguments.parse args with
  | .ok command => readFile command.options.config
  | .error _ => return .ok []

def printResponse (r : Http.Response) : IO Unit :=
  IO.println (toString r.status ++ r.body.elim "" fun v => " " ++ v.compact)

end NodeGroups

open NodeGroups in
def main (args : List String) : IO UInt32 := do
  let content ← readConfig args
  let feeds := (← readLines (← IO.getStdin) []).filterMap Daemon.Feed.ofLine?
  let host : Juju.Host := { plan := feeds.filterMap (·.output?) }
  let ending := Daemon.launch Juju.Host.run host (fun _ => content) args
  match ending with
  | .help => IO.println usage
  | .usage => IO.eprintln usage
  | .failed _ failure => IO.eprint failure.render
  | .reported _ report => IO.println report.pretty
  | .serving server => (server.answerAll (feeds.filterMap (·.request?))).2.forM printResponse
  return ending.code.toUInt32
