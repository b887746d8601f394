import NodeGroups.Proofs.Ending

/-!
# What fleets reply

`Ends` leaves open which fleets are asked. Given fleets reply in one way only, and an operation that they carry out ends
with just the events that they reply.
-/

namespace NodeGroups.Operation
open Fleet (Request)

variable {ι κ σ α φ : Type} {reply : Fleets φ ι}

/-- Called one after another, the fleets reply as the events say, and end up in another condition. -/
inductive Replies (reply : Fleets φ ι) : φ → List (Event ι) → φ → Prop
  | nil {fleets : φ} : Replies reply fleets [] fleets
  | warn {fleets fleets' : φ} {n es} : Replies reply fleets es fleets' → Replies reply fleets (.warn n :: es) fleets'
  | call {fleets fleets' : φ} {i} {r : Request} {o es} :
      (reply fleets i r).2.outcome = o → Replies reply (reply fleets i r).1 es fleets' →
      Replies reply fleets (.call i r o :: es) fleets'

theorem replies_run (reply : Fleets φ ι) : (op : Operation ι σ α) → (fleets : φ) →
    Replies reply fleets ((op.run reply fleets).events.filter (!·.isLate)) (op.run reply fleets).fleets
  | done _ _, _ => .nil
  | warn _ rest, fleets => .warn (replies_run reply rest fleets)
  | call s i r k, fleets => by
      simp only [run]
      cases ho : (reply fleets i r).2.outcome with
      | none => cases (reply fleets i r).2.late <;> exact .call ho .nil
      | some o =>
          have ih := replies_run reply (k o) (reply fleets i r).1
          cases (reply fleets i r).2.late <;> exact .call ho ih

theorem run_of_replies : (op : Operation ι σ α) → {fleets fleets' : φ} → {es : List (Event ι)} → {t : σ} →
    {v : Option α} → op.Ends es t v → Replies reply fleets es fleets' →
      (op.run reply fleets).events.filter (!·.isLate) = es ∧ (op.run reply fleets).state = t ∧
        (op.run reply fleets).value = v ∧ (op.run reply fleets).fleets = fleets'
  | done _ _, _, _, _, _, _, h, hr => by
      obtain ⟨rfl, rfl, rfl⟩ := ends_done.mp h
      cases hr
      exact ⟨rfl, rfl, rfl, rfl⟩
  | warn n rest, _, _, _, _, _, h, hr => by
      obtain ⟨es, rfl, h'⟩ := ends_warn.mp h
      cases hr with
      | warn hr =>
          obtain ⟨he, hs, hv, hf⟩ := run_of_replies rest h' hr
          exact ⟨congrArg (Event.warn n :: ·) he, hs, hv, hf⟩
  | call s i r k, fleets, _, _, _, _, h, hr => by
      rcases ends_call.mp h with ⟨rfl, rfl, rfl⟩ | ⟨o, es, rfl, h'⟩
      · cases hr with
        | call ho hr =>
            cases hr
            cases hl : (reply fleets i r).2.late <;> simp [run, ho, hl, Event.isLate]
      · cases hr with
        | call ho hr =>
            obtain ⟨he, hs, hv, hf⟩ := run_of_replies (k o) h' hr
            simp only [run, ho]
            refine ⟨?_, hs, hv, hf⟩
            cases (reply fleets i r).2.late <;> exact congrArg (Event.call i r (some o) :: ·) he

theorem Replies.trans {fleets fleets' fleets'' : φ} {es es' : List (Event ι)} (h : Replies reply fleets es fleets')
    (h' : Replies reply fleets' es' fleets'') : Replies reply fleets (es ++ es') fleets'' := by
  induction h with
  | nil => exact h'
  | warn _ ih => exact .warn (ih h')
  | call ho _ ih => exact .call ho (ih h')

/-- The condition in which the fleets are left when commands have been carried out. -/
def leave (act : κ → σ → Operation ι σ α) (reply : Fleets φ ι) : φ → σ → List κ → φ
  | fleets, _, [] => fleets
  | fleets, s, c :: cs =>
      let r := (act c s).run reply fleets
      leave act reply r.fleets r.state cs

theorem replies_play (act : κ → σ → Operation ι σ α) (reply : Fleets φ ι) :
    (fleets : φ) → (s : σ) → (cs : List κ) →
      Replies reply fleets (eventsOf (play act reply fleets s cs).1) (leave act reply fleets s cs)
  | _, _, [] => .nil
  | fleets, s, c :: cs => (replies_run reply (act c s) fleets).trans (replies_play act reply _ _ cs)

/-- What has happened in an operation settles how it has ended. -/
theorem Ends.unique {op : Operation ι σ α} {es : List (Event ι)} {s t : σ} {v w : Option α} (h : op.Ends es s v)
    (h' : op.Ends es t w) : t = s ∧ w = v := by
  obtain ⟨_, reply, fleets, rfl, rfl, rfl⟩ := h
  obtain ⟨-, hs, hv, -⟩ := run_of_replies op h' (replies_run reply op fleets)
  exact ⟨hs.symm, hv.symm⟩

theorem Ends.iff_eq {op : Operation ι σ α} {es : List (Event ι)} {s t : σ} {v w : Option α} (h : op.Ends es s v) :
    op.Ends es t w ↔ t = s ∧ w = v := by
  constructor
  · exact h.unique
  · rintro ⟨rfl, rfl⟩
    exact h

end NodeGroups.Operation
