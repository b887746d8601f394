import NodeGroups.Juju.Runner
import NodeGroups.Proofs.Calls
import NodeGroups.Proofs.Replies

/-!
# Programs that have been run

A runner that keeps a record shows which programs it has run, and how they ended. Fleets that are reached through it run one
program for each call. Main statement: `exists_executions`.
-/

namespace NodeGroups.Juju
open Fleet (Request)
open Operation

variable {ι φ : Type} {run : Runner φ} {client : ι → Juju}

/-- Runs programs as another runner does, and keeps a record of them. -/
def Runner.recorded (run : Runner φ) : Runner (φ × List (Invocation × Ending)) := fun (s, record) v =>
  let (s, e) := run s v
  ((s, record ++ [(v, e)]), e)

/-- A program that has been run for a call. -/
structure Execution (ι : Type) where
  fleet : ι
  request : Request
  ending : Ending

namespace Execution

/-- What a record says of it. -/
def entry (client : ι → Juju) (x : Execution ι) : Invocation × Ending := ((client x.fleet).invocation x.request, x.ending)

/-- What the caller knows of it. -/
def event (client : ι → Juju) (x : Execution ι) : Event ι :=
  .call x.fleet x.request (some ((client x.fleet).outcome x.request x.ending))

theorem eq_of_event {x : Execution ι} {i : ι} {r : Request} {o : Option (Fleet.Outcome r)}
    (h : x.event client = .call i r o) : ∃ e, x = ⟨i, r, e⟩ ∧ o = some ((client i).outcome r e) := by
  cases x with
  | mk fleet request e =>
      cases h
      exact ⟨e, rfl, rfl⟩

end Execution

/-- One program is run for each call, and nothing else is run. -/
theorem exists_executions {s t : φ × List (Invocation × Ending)} {es : List (Event ι)}
    (h : Replies (run.recorded.fleets client) s es t) :
    ∃ xs : List (Execution ι), t.2 = s.2 ++ xs.map (·.entry client) ∧ calls es = xs.map (·.event client) := by
  induction h with
  | nil => exact ⟨[], (List.append_nil _).symm, rfl⟩
  | warn _ ih => exact ih
  | @call s t i r o es ho _ ih =>
      obtain ⟨xs, hr, hc⟩ := ih
      refine ⟨⟨i, r, (run s.1 ((client i).invocation r)).2⟩ :: xs, ?_, ?_⟩
      · rw [hr]
        simp [Runner.fleets, Runner.recorded, Execution.entry]
      · subst ho
        exact congrArg _ hc

end NodeGroups.Juju
