import NodeGroups.Juju.Runner

/-! Hosts on which `juju` is the only program, and where it is laid down beforehand how its runs end. -/
namespace NodeGroups.Juju

structure Host where
  plan : List Output
  /-- The runs so far. -/
  ran : List Invocation := []

namespace Host

/-- A run that the plan does not provide for. -/
def unplanned : Output := { stderr := Text.Utf8.encode "no scripted response\n", code := some 99 }

/-- A text that no program can be given. -/
def hasNul (s : String) : Bool := s.toList.contains '\x00'

def isPassable (v : Invocation) : Bool := !(v.binary :: v.arguments ++ v.dataDir.toList).any hasNul

def run : Runner Host := fun h v =>
  if !isPassable v then (h, .notStarted "nul byte found in provided data")
  else if v.binary != "juju" then (h, .notStarted "No such file or directory (os error 2)")
  else ({ plan := h.plan.tail, ran := h.ran ++ [v] }, .ended (h.plan.headD unplanned))

end Host
end NodeGroups.Juju
