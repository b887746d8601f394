import NodeGroups.Api

/-! What callers run through a handle: what requests ask for, and the refreshes of the loop. -/
namespace NodeGroups

inductive Job where
  | request (action : Api.Action)
  | refresh
  deriving DecidableEq, Repr

namespace Job

@[reducible] def Result : Job → Type
  | request _ => Json.Value
  | refresh => Unit

def op : (j : Job) → Provider → Provider.Op j.Result
  | request action, p => Api.perform p action
  | refresh, p => p.refresh

/-- It refreshes all groups. -/
def isRefresh : Job → Bool
  | request .refresh | refresh => true
  | request _ => false

/-- What came of a job; without a value it broke off. -/
abbrev Ending : Type := (j : Job) × Option (Except Provider.Error j.Result)

end Job

namespace Handle
open Operation (Event Fleets)

/-- What is logged before an operation. -/
def recovery (h : Handle) : List (Event Nat) := if h.poisoned then [.warn .lockRecovered] else []

/-- How jobs went that were run through a handle one after another. -/
structure Service (φ : Type) where
  handle : Handle
  fleets : φ
  answers : List ((j : Job) × Except Provider.Error j.Result) := []
  events : List (Event Nat) := []

/-- Runs jobs for one caller after another. -/
def serve {φ : Type} (reply : Fleets φ Nat) (h : Handle) (fleets : φ) : List Job → Service φ
  | [] => { handle := h, fleets }
  | j :: jobs =>
    let c := h.call reply fleets j.op
    let s := c.handle.serve reply c.fleets jobs
    { s with answers := ⟨j, c.answer⟩ :: s.answers, events := c.events ++ c.afterwards ++ s.events }

/-- What came of jobs that were done one at a time. Whether a caller still waited plays no part in it. -/
structure Turns (φ : Type) where
  handle : Handle
  fleets : φ
  endings : List Job.Ending := []
  events : List (Event Nat) := []

/-- One job more. -/
def Turns.next {φ : Type} (reply : Fleets φ Nat) (s : Turns φ) (j : Job) : Turns φ :=
  let r := s.handle.perform reply s.fleets j.op
  { handle := r.state, fleets := r.fleets, endings := s.endings ++ [⟨j, r.value⟩]
    events := s.events ++ r.events.filter (!·.isLate) }

def performAll {φ : Type} (reply : Fleets φ Nat) (h : Handle) (fleets : φ) (jobs : List Job) : Turns φ :=
  jobs.foldl (Turns.next reply) { handle := h, fleets }

end Handle
end NodeGroups
