import NodeGroups.Config.Error
import NodeGroups.Provider.Error

/-! Failures of the daemon as they are told to its user. -/
namespace NodeGroups.Daemon

structure Failure where
  message : String
  /-- What the failure came from, nearest first. -/
  causes : List String := []
  deriving DecidableEq, Repr

namespace Failure

/-- A text whose further lines are moved to the right. -/
def indented (width : Nat) (s : String) : List Char :=
  s.toList.flatMap fun c => if c == '\n' then '\n' :: List.replicate width ' ' else [c]

def numbered (n : Nat) (cause : String) : List Char :=
  '\n' :: List.leftpad 5 ' ' (Nat.toDigits 10 n) ++ [':', ' '] ++ indented 7 cause

/-- Several causes are numbered. -/
def causeLines : List String → List Char
  | [] => []
  | [cause] => "\n\nCaused by:\n    ".toList ++ indented 4 cause
  | causes => "\n\nCaused by:".toList ++ (causes.zipIdx.flatMap fun (cause, n) => numbered n cause)

def render (f : Failure) : String := "Error: " ++ f.message ++ String.ofList (causeLines f.causes) ++ "\n"

/-- What a configuration error came from. Of a parse error no more is told. -/
def origins : Config.Error → List String
  | .read _ cause => [cause]
  | .parse => [""]
  | _ => []

def ofConfig (path : String) (e : Config.Error) : Failure where
  message := "failed to load config " ++ path
  causes := e.message :: origins e

def ofStart : Provider.Error → Failure
  | .start group e => { message := (Provider.Error.start group e).message, causes := [e.message] }
  | e => { message := e.message }

end Failure
end NodeGroups.Daemon
