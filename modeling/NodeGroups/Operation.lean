import NodeGroups.Fleet.Request
import NodeGroups.Notice

/-! Operations on a state that ask fleets. -/
namespace NodeGroups
open Fleet (Request)

/-- An operation on states `σ` that asks the fleets `ι` and ends in a value `α`. Every call shows the state that an
operation which breaks off there leaves behind. -/
inductive Operation (ι σ α : Type) where
  | done (state : σ) (value : α)
  | warn (notice : Notice) (rest : Operation ι σ α)
  | call (state : σ) (fleet : ι) (request : Request) (next : Fleet.Outcome request → Operation ι σ α)

namespace Operation
variable {ι κ σ τ α β : Type}

/-- Goes on after an operation on a part of a larger state, whose fleet is one of several. -/
def bindIn (fleet : ι → κ) (put : σ → τ) (next : σ → α → Operation κ τ β) :
    Operation ι σ α → Operation κ τ β
  | done s a => next s a
  | warn n rest => warn n (rest.bindIn fleet put next)
  | call s i r k => call (put s) (fleet i) r fun o => (k o).bindIn fleet put next

def within (fleet : ι → κ) (put : σ → τ) (op : Operation ι σ α) : Operation κ τ α :=
  op.bindIn fleet put fun s a => done (put s) a

def bind (op : Operation ι σ α) (next : σ → α → Operation ι σ β) : Operation ι σ β :=
  op.bindIn id id next

def warnAll (notices : List Notice) (op : Operation ι σ α) : Operation ι σ α := notices.foldr warn op

/-! ## Runs -/

/-- What becomes of a call: it may come back only after the caller of the operation has given up, and it may break
the operation off instead of coming back. -/
structure Reply (α : Type) where
  late : Bool := false
  outcome : Option (Except Fleet.Error α)

/-- Fleets in a condition `φ`, each of which replies to requests. -/
def Fleets (φ ι : Type) : Type := φ → ι → (r : Request) → φ × Reply r.Answer

inductive Event (ι : Type) where
  /-- Without an outcome the operation broke off in the call. -/
  | call (fleet : ι) (request : Request) (outcome : Option (Fleet.Outcome request))
  | warn (notice : Notice)
  /-- From here on nobody waits for the operation. -/
  | late

/-- How an operation went; without a value it broke off. -/
structure Run (ι φ σ α : Type) where
  fleets : φ
  state : σ
  value : Option α
  events : List (Event ι)

def Run.after {φ : Type} (events : List (Event ι)) (r : Run ι φ σ α) : Run ι φ σ α :=
  { r with events := events ++ r.events }

def run {φ : Type} (reply : Fleets φ ι) (fleets : φ) : Operation ι σ α → Run ι φ σ α
  | done s a => { fleets, state := s, value := some a, events := [] }
  | warn n rest => (rest.run reply fleets).after [.warn n]
  | call s i r k =>
    let (fleets, answer) := reply fleets i r
    let events := .call i r answer.outcome :: if answer.late then [.late] else []
    match answer.outcome with
    | none => { fleets, state := s, value := none, events }
    | some o => ((k o).run reply fleets).after events

namespace Event

def isLate : Event ι → Bool
  | late => true
  | _ => false

def notice? : Event ι → Option Notice
  | warn n => some n
  | _ => none

/-- The request, if it is one to that fleet. -/
def requestTo? [DecidableEq ι] (fleet : ι) : Event ι → Option Request
  | call i r _ => if i = fleet then some r else none
  | _ => none

end Event

end Operation
end NodeGroups
