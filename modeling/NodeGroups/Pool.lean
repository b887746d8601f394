import NodeGroups.Job

/-! Tasks, each of which runs a job through the same handle while a caller waits for it. -/
namespace NodeGroups
open Operation (Event Fleets)

/-- How far the operation of a task is. -/
inductive Task.Stage (α : Type) where
  /-- It has not got the lock yet. -/
  | waiting
  /-- It holds the lock, and so much is left to do. -/
  | running (rest : Provider.Op α)
  /-- Without a value it broke off. -/
  | ended (value : Option (Except Provider.Error α))

namespace Task.Stage
variable {α : Type}

def isWaiting : Stage α → Bool
  | waiting => true
  | _ => false

def isRunning : Stage α → Bool
  | running _ => true
  | _ => false

def isEnded : Stage α → Bool
  | ended _ => true
  | _ => false

/-- What came of the operation, once it is over. -/
def result? : Stage α → Option (Option (Except Provider.Error α))
  | ended v => some v
  | _ => none

end Task.Stage

structure Task where
  job : Job
  stage : Task.Stage job.Result := .waiting
  /-- What the caller has been told. -/
  answer : Option (Except Provider.Error job.Result) := none

def Task.ending? (t : Task) : Option Job.Ending := t.stage.result?.map fun v => ⟨t.job, v⟩

/-- Tasks that share a handle and are known by their places. -/
structure Pool (φ : Type) where
  handle : Handle
  fleets : φ
  tasks : List Task := []
  events : List (Event Nat) := []

namespace Pool
variable {φ : Type}

/-- What happens next in a pool. -/
inductive Move where
  /-- A caller comes with a job. -/
  | submit (job : Job)
  /-- A task gets the lock. -/
  | acquire (task : Nat)
  /-- The task that holds the lock does one step; the last one gives the lock back. -/
  | proceed (task : Nat)
  /-- The caller gets what came of the task. -/
  | answer (task : Nat)
  /-- The caller gives up. -/
  | timeOut (task : Nat)
  deriving DecidableEq, Repr

def isFree (q : Pool φ) : Bool := q.tasks.all (!·.stage.isRunning)

def put (q : Pool φ) (i : Nat) (t : Task) : Pool φ := { q with tasks := q.tasks.set i t }

/-- One step of the task at that place. -/
def advance (reply : Fleets φ Nat) (q : Pool φ) (i : Nat) (t : Task) : Provider.Op t.job.Result → Pool φ
  | .done p a => { q.put i { t with stage := .ended (some a) } with handle := { q.handle with provider := p } }
  | .warn n rest => { q.put i { t with stage := .running rest } with events := q.events ++ [.warn n] }
  | .call p k r next =>
    let (fleets, answer) := reply q.fleets k r
    let events := q.events ++ [.call k r answer.outcome]
    match answer.outcome with
    | none =>
      { q.put i { t with stage := .ended none } with
        handle := { q.handle with provider := p, poisoned := true }, fleets, events }
    | some o => { q.put i { t with stage := .running (next o) } with fleets, events }

/-- The pool after a move, if the move is open to it. -/
def move? (reply : Fleets φ Nat) (q : Pool φ) : Move → Option (Pool φ)
  | .submit job => some { q with tasks := q.tasks ++ [{ job }] }
  | .acquire i =>
    q.tasks[i]?.bind fun t =>
      if t.stage.isWaiting && q.isFree then
        some { q.put i { t with stage := .running (t.job.op q.handle.provider) } with
          events := q.events ++ q.handle.recovery }
      else none
  | .proceed i =>
    q.tasks[i]?.bind fun t =>
      match t.stage with
      | .running rest => some (q.advance reply i t rest)
      | _ => none
  | .answer i =>
    q.tasks[i]?.bind fun t =>
      match t.stage, t.answer with
      | .ended v, none => some (q.put i { t with answer := some (v.getD (.error .brokenOff)) })
      | _, _ => none
  | .timeOut i =>
    q.tasks[i]?.bind fun t =>
      if t.answer.isNone then some (q.put i { t with answer := some (.error (.timeout q.handle.timeout)) }) else none

/-- Some moves one after another, if each is open when its turn comes. -/
def moves? (reply : Fleets φ Nat) (q : Pool φ) : List Move → Option (Pool φ)
  | [] => some q
  | m :: ms => (q.move? reply m).bind (·.moves? reply ms)

end Pool

end NodeGroups
