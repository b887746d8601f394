import NodeGroups.Http.Message
import NodeGroups.Json.Decoder
import NodeGroups.Juju

/-! What a daemon is fed with line by line: how runs of juju end, and requests. -/
namespace NodeGroups.Daemon
open Json (Decoder)
open Json.Decoder (field)

/-- A line is a JSON record. It is a request if it names a method, else the end of a run. -/
structure Feed where
  stdout : String := ""
  stderr : String := ""
  exit : Nat := 0
  killed : Bool := false
  method : Option String := none
  path : String := ""
  contentType : Option String := none
  body : String := ""

namespace Feed

def decoder : Decoder Feed :=
  .record [
    field "stdout" .string fun v f => { f with stdout := v },
    field "stderr" .string fun v f => { f with stderr := v },
    field "exit" .natural fun v f => { f with exit := v },
    field "killed" .bool fun v f => { f with killed := v },
    field "method" .string fun v f => { f with method := some v },
    field "path" .string fun v f => { f with path := v },
    field "content_type" .string fun v f => { f with contentType := some v },
    field "body" .string fun v f => { f with body := v }] {}

def ofLine? (line : String) : Option Feed := (decoder.decode (Text.Utf8.encode line)).toOption

def output? (f : Feed) : Option Juju.Output :=
  if f.method.isSome then none
  else some {
    stdout := Text.Utf8.encode f.stdout
    stderr := Text.Utf8.encode f.stderr
    code := if f.killed then none else some f.exit }

def request? (f : Feed) : Option Http.Request :=
  f.method.map fun method =>
    { method, target := f.path, contentType := f.contentType, body := Text.Utf8.encode f.body }

end Feed
end NodeGroups.Daemon
