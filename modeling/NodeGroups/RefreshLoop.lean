import NodeGroups.Pool

/-! The loop that refreshes a provider at intervals until it is told to stop. -/
namespace NodeGroups
open Operation (Event Fleets)

namespace RefreshLoop

/-- The channel on which the loop is told to stop. -/
structure Signal where
  /-- A value has been sent that the loop has not seen. -/
  unseen : Bool := false
  /-- Nobody is left who could send one. -/
  abandoned : Bool := false
  deriving DecidableEq, Repr

def Signal.isReady (s : Signal) : Bool := s.unseen || s.abandoned

/-- Where the loop stands. -/
inductive Stage where
  /-- It has not been polled yet. -/
  | idle
  /-- It waits for the signal and for the timer, which goes off at that time. -/
  | sleeping (deadline : Nat)
  /-- It waits for the answer to a refresh, the task at that place. -/
  | refreshing (task : Nat)
  | stopped
  deriving DecidableEq, Repr

/-- What the loop waits for while it sleeps. -/
inductive Branch where
  | timer
  | signal
  deriving DecidableEq, Repr

end RefreshLoop

/-- The loop, and the pool in which its refreshes run. -/
structure RefreshLoop (φ : Type) where
  interval : Duration
  pool : Pool φ
  signal : RefreshLoop.Signal := {}
  stage : RefreshLoop.Stage := .idle
  /-- The time, in milliseconds. -/
  clock : Nat := 0
  /-- The refreshes that it has started, by the places of their tasks. -/
  started : List Nat := []
  log : List Notice := []

namespace RefreshLoop
variable {φ : Type}

/-- A refresh that fails is logged, and ends nothing. -/
def complaints {α : Type} : Except Provider.Error α → List Notice
  | .ok _ => []
  | .error e => [.refreshLoopFailed e.message]

/-- What happens to the loop, and around it. -/
inductive Move where
  /-- Time goes by. -/
  | pass (span : Duration)
  /-- The loop is told to stop. -/
  | send
  /-- The sender goes away. -/
  | abandon
  /-- The loop goes on. While it sleeps it looks at that branch first. -/
  | poll (first : Branch)
  /-- Something happens in the pool. -/
  | pool (m : Pool.Move)
  deriving DecidableEq, Repr

/-- Starts a refresh and waits for its answer. -/
def refresh (l : RefreshLoop φ) : RefreshLoop φ :=
  let task := l.pool.tasks.length
  { l with
    pool := { l.pool with tasks := l.pool.tasks ++ [{ job := .refresh }] }
    stage := .refreshing task
    started := l.started ++ [task] }

def stop (l : RefreshLoop φ) : RefreshLoop φ :=
  { l with stage := .stopped, signal := { l.signal with unseen := false } }

/-- Takes the first branch that is ready. -/
def select (l : RefreshLoop φ) (deadline : Nat) (first : Branch) : RefreshLoop φ :=
  if deadline ≤ l.clock ∧ (first = .timer ∨ l.signal.isReady = false) then l.refresh
  else if l.signal.isReady then l.stop
  else { l with stage := .sleeping deadline }

/-- Sets a timer, and looks at both branches for the first time. No time goes by between the two. So a timer that has just
been set is assumed not to have gone off when it is first looked at, unless the interval is zero. -/
def sleep (l : RefreshLoop φ) (first : Branch) : RefreshLoop φ := l.select (l.clock + l.interval.millis) first

/-- What the caller of a refresh would log, once it has been told something. -/
def report? (l : RefreshLoop φ) (task : Nat) : Option (List Notice) :=
  l.pool.tasks[task]?.bind fun t => t.answer.map complaints

/-- The loop goes on as far as it can. -/
def poll (l : RefreshLoop φ) (first : Branch) : Option (RefreshLoop φ) :=
  match l.stage with
  | .idle => some (l.sleep first)
  | .sleeping deadline => some (l.select deadline first)
  | .refreshing task =>
    match l.report? task with
    | none => some l
    | some ns => some ({ l with log := l.log ++ ns }.sleep first)
  | .stopped => none

/-- The loop after a move, if the move is open to it. -/
def move? (reply : Fleets φ Nat) (l : RefreshLoop φ) : Move → Option (RefreshLoop φ)
  | .pass span => some { l with clock := l.clock + span.millis }
  | .send => if l.signal.abandoned then none else some { l with signal := { l.signal with unseen := true } }
  | .abandon => some { l with signal := { l.signal with abandoned := true } }
  | .poll first => l.poll first
  | .pool m => (l.pool.move? reply m).map fun pool => { l with pool }

/-- Some moves one after another, if each is open when its turn comes. -/
def moves? (reply : Fleets φ Nat) (l : RefreshLoop φ) : List Move → Option (RefreshLoop φ)
  | [] => some l
  | m :: ms => (l.move? reply m).bind (·.moves? reply ms)

/-! ## Refreshes -/

/-- What some refreshes of the loop did. -/
structure Rounds (φ : Type) where
  handle : Handle
  fleets : φ
  events : List (Event Nat) := []

/-- One refresh more. -/
def Rounds.next (reply : Fleets φ Nat) (r : Rounds φ) : Rounds φ :=
  let c := r.handle.refresh reply r.fleets
  { handle := c.handle, fleets := c.fleets
    events := r.events ++ c.events ++ (complaints c.answer).map .warn ++ c.afterwards }

/-- So many refreshes one after another. -/
def rounds (reply : Fleets φ Nat) (h : Handle) (fleets : φ) : Nat → Rounds φ
  | 0 => { handle := h, fleets }
  | n + 1 => (rounds reply h fleets n).next reply

end RefreshLoop
end NodeGroups
