import NodeGroups.Job

/-!
# Calls through a handle

A call runs its operation on the provider of the handle, and tells the caller what came of it unless the caller has given up.
That an operation has broken off before shows only in a warning. Main statement: `serve_poisoned`.
-/

namespace NodeGroups.Handle
open Operation

variable {φ α : Type}

/-- The handle after a run on its provider. -/
def after (h : Handle) (r : Run Nat φ Provider (Except Provider.Error α)) : Handle :=
  { h with provider := r.state, poisoned := h.poisoned || r.value.isNone }

theorem call_eq (h : Handle) (reply : Fleets φ Nat) (fleets : φ) (op : Provider → Provider.Op α) :
    h.call reply fleets op =
      let r := (op h.provider).run reply fleets
      if r.events.any (·.isLate) then
        { handle := h.after r, fleets := r.fleets, answer := .error (.timeout h.timeout)
          events := h.recovery ++ r.events.takeWhile (!·.isLate), afterwards := (r.events.dropWhile (!·.isLate)).tail }
      else
        { handle := h.after r, fleets := r.fleets, answer := r.value.getD (.error .brokenOff)
          events := h.recovery ++ r.events } := by
  cases hp : h.poisoned <;> simp [call, perform, recovery, after, hp, Event.isLate]

/-- A caller who waits for an operation that does not break off is told what has come of it. -/
theorem call_of_value {h : Handle} {reply : Fleets φ Nat} {fleets : φ} {op : Provider → Provider.Op α}
    {v : Except Provider.Error α} (hl : ((op h.provider).run reply fleets).events.any (·.isLate) = false)
    (hv : ((op h.provider).run reply fleets).value = some v) :
    h.call reply fleets op =
      let r := (op h.provider).run reply fleets
      { handle := { h with provider := r.state }, fleets := r.fleets, answer := v, events := h.recovery ++ r.events } := by
  simp [call_eq, after, hl, hv]

def isRecovery : Event Nat → Bool
  | .warn .lockRecovered => true
  | _ => false

theorem filter_recovery (h : Handle) : h.recovery.filter (!isRecovery ·) = [] := by
  unfold recovery
  split <;> rfl

/-- Whether an operation has broken off before makes no difference to a call, except for the warning. -/
theorem call_poisoned (h : Handle) (poisoned : Bool) (reply : Fleets φ Nat) (fleets : φ) (op : Provider → Provider.Op α) :
    let c := h.call reply fleets op
    let c' := { h with poisoned }.call reply fleets op
    (∃ poisoned, c'.handle = { c.handle with poisoned }) ∧ c'.fleets = c.fleets ∧ c'.answer = c.answer ∧
      (c'.events ++ c'.afterwards).filter (!isRecovery ·) = (c.events ++ c.afterwards).filter (!isRecovery ·) := by
  simp only [call_eq]
  split <;> simp [after, List.filter_append, filter_recovery]

theorem serve_poisoned (h : Handle) (poisoned : Bool) (reply : Fleets φ Nat) (fleets : φ) (jobs : List Job) :
    let s := h.serve reply fleets jobs
    let s' := { h with poisoned }.serve reply fleets jobs
    s'.handle.provider = s.handle.provider ∧ s'.fleets = s.fleets ∧ s'.answers = s.answers ∧
      s'.events.filter (!isRecovery ·) = s.events.filter (!isRecovery ·) := by
  induction jobs generalizing h poisoned fleets with
  | nil => exact ⟨rfl, rfl, rfl, rfl⟩
  | cons j jobs ih =>
      obtain ⟨⟨poisoned', hc⟩, hf, ha, he⟩ := call_poisoned h poisoned reply fleets j.op
      obtain ⟨ihp, ihf, iha, ihe⟩ := ih (h.call reply fleets j.op).handle poisoned' (h.call reply fleets j.op).fleets
      simp only [serve, hc, hf, ha]
      refine ⟨ihp, ihf, congrArg _ iha, ?_⟩
      rw [List.filter_append, he, ihe, ← List.filter_append]

end NodeGroups.Handle
