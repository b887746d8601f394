import NodeGroups.Provider

/-! Handles, through which one operation at a time runs on a provider. -/
namespace NodeGroups

structure Handle where
  provider : Provider
  /-- How long a caller waits for an operation. -/
  timeout : Duration
  /-- An operation broke off while it held the lock. -/
  poisoned : Bool := false

namespace Handle
open Operation (Event Fleets)

/-- Runs an operation under the lock. One that breaks off leaves the provider as it is. -/
def perform {φ α : Type} (h : Handle) (reply : Fleets φ Nat) (fleets : φ) (op : Provider → Provider.Op α) :
    Operation.Run Nat φ Handle (Except Provider.Error α) :=
  let r := (op h.provider).run reply fleets
  { r with
    state := { h with provider := r.state, poisoned := h.poisoned || r.value.isNone }
    events := (if h.poisoned then [.warn .lockRecovered] else []) ++ r.events }

/-- How a call through a handle went. The events are those up to the answer of the caller, and those after it. -/
structure Call (φ α : Type) where
  handle : Handle
  fleets : φ
  answer : Except Provider.Error α
  events : List (Event Nat)
  afterwards : List (Event Nat) := []

/-- Runs an operation for a caller. A caller that the outcome does not reach in time is told so, and the operation
goes on. -/
def call {φ α : Type} (h : Handle) (reply : Fleets φ Nat) (fleets : φ) (op : Provider → Provider.Op α) :
    Call φ α :=
  let r := h.perform reply fleets op
  if r.events.any (·.isLate) then
    { handle := r.state, fleets := r.fleets, answer := .error (.timeout h.timeout)
      events := r.events.takeWhile (!·.isLate), afterwards := (r.events.dropWhile (!·.isLate)).tail }
  else
    { handle := r.state, fleets := r.fleets, answer := r.value.getD (.error .brokenOff), events := r.events }

/-- Runs an operation that breaks off at once. -/
def breakOff {φ α : Type} (h : Handle) (fleets : φ) : Call φ α where
  handle := { h with poisoned := true }
  fleets
  answer := .error .brokenOff
  events := if h.poisoned then [.warn .lockRecovered] else []

def refresh {φ : Type} (h : Handle) (reply : Fleets φ Nat) (fleets : φ) : Call φ Unit :=
  h.call reply fleets Provider.refresh

end Handle
end NodeGroups
