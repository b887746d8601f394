import NodeGroups.Juju
import NodeGroups.Operation

/-! Runners, which run programs, and the fleets that are reached through them. -/
namespace NodeGroups.Juju

/-- Something in a condition `φ` that runs programs. -/
def Runner (φ : Type) : Type := φ → Invocation → φ × Ending

/-- Fleets that are each reached through a client. -/
def Runner.fleets {φ ι : Type} (run : Runner φ) (client : ι → Juju) : Operation.Fleets φ ι := fun s i r =>
  let (s, e) := run s ((client i).invocation r)
  (s, { outcome := some ((client i).outcome r e) })

end NodeGroups.Juju
