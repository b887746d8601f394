import NodeGroups.Proofs.Replies

/-!
# Operations that fail fast

An operation fails fast if a call that comes back with an error ends it there. Then the error is the value, and the state is
the one that breaking off in the call would leave.
-/

namespace NodeGroups.Operation
open Fleet (Request)

variable {ι κ σ τ α β ε δ : Type}

/-- A call that fails ends the operation in the error of the call, and leaves what breaking off in it would leave. -/
def FailsFast (f : Fleet.Error → ε) : Operation ι σ (Except ε α) → Prop
  | done _ _ => True
  | warn _ rest => rest.FailsFast f
  | call s _ _ k => (∀ e, k (.error e) = done s (.error (f e))) ∧ ∀ a, (k (.ok a)).FailsFast f

namespace FailsFast
variable {f : Fleet.Error → ε} {op : Operation ι σ (Except ε α)}

theorem of_done (s : σ) (a : Except ε α) : (done s a : Operation ι σ (Except ε α)).FailsFast f := trivial

theorem warnAll (h : op.FailsFast f) (ns : List Notice) : (warnAll ns op).FailsFast f := by
  induction ns with
  | nil => exact h
  | cons n ns ih => exact ih

/-- An operation that fails fast on a part does so on the whole if its errors are passed on at once. -/
theorem bindIn {fleet : ι → κ} {put : σ → τ} {g : Fleet.Error → δ} {next : σ → Except ε α → Operation κ τ (Except δ β)}
    (hn : ∀ s e, next s (.error (f e)) = done (put s) (.error (g e))) (hg : ∀ s a, (next s a).FailsFast g) :
    (op : Operation ι σ (Except ε α)) → op.FailsFast f → (op.bindIn fleet put next).FailsFast g
  | done s a, _ => hg s a
  | warn _ rest, h => bindIn hn hg rest h
  | call s i r k, h => by
      refine ⟨fun e => ?_, fun a => bindIn hn hg (k (.ok a)) (h.2 a)⟩
      dsimp only
      rw [h.1 e]
      exact hn s e

theorem within {fleet : ι → κ} {put : σ → τ} (h : op.FailsFast f) : (op.within fleet put).FailsFast f :=
  bindIn (fun _ _ => rfl) (fun _ _ => of_done ..) op h

/-- After a call that fails nothing else happens. -/
theorem ends {i : ι} {r : Request} {e : Fleet.Error} {es' : List (Event ι)} {t : σ} {v : Option (Except ε α)} :
    {op : Operation ι σ (Except ε α)} → {es : List (Event ι)} → op.FailsFast f →
      op.Ends (es ++ .failed i r (some e) :: es') t v → v = some (.error (f e)) ∧ es' = [] ∧ op.Asks es i r t
  | done _ _, _, _, h => by simp [ends_done] at h
  | warn n rest, es, hf, h => by
      replace hf : rest.FailsFast f := hf
      obtain ⟨es₁, he, h'⟩ := ends_warn.mp h
      cases es with
      | nil => cases he
      | cons _ es =>
          obtain ⟨rfl, rfl⟩ := List.cons.inj he
          obtain ⟨hv, hes, ha⟩ := ends hf h'
          exact ⟨hv, hes, ends_warn.mpr ⟨_, rfl, ha⟩⟩
  | call s j q k, es, hf, h => by
      rcases (ends_call_of_error hf.1).mp h with ⟨e', he, rfl, rfl⟩ | ⟨a, es₁, he, h'⟩
      · obtain ⟨rfl, he⟩ | ⟨_, -, he⟩ := List.append_eq_cons_iff.mp he
        · cases e' <;> cases he
          exact ⟨rfl, rfl, ends_call.mpr (.inl ⟨rfl, rfl, rfl⟩)⟩
        · simp at he
      · cases es with
        | nil => cases he
        | cons _ es =>
            obtain ⟨rfl, rfl⟩ := List.cons.inj he
            obtain ⟨hv, hes, ha⟩ := ends (hf.2 a) h'
            exact ⟨hv, hes, ends_call.mpr (.inr ⟨_, _, rfl, ha⟩)⟩

/-- Wherever the operation may break off, the call may fail instead. -/
theorem ends_of_asks {i : ι} {r : Request} {t : σ} (e : Fleet.Error) :
    {op : Operation ι σ (Except ε α)} → {es : List (Event ι)} → op.FailsFast f → op.Asks es i r t →
      op.Ends (es ++ [.failed i r (some e)]) t (some (.error (f e)))
  | done _ _, _, _, h => nomatch (ends_done.mp h).2.2
  | warn n rest, es, hf, h => by
      replace hf : rest.FailsFast f := hf
      obtain ⟨es₁, he, h'⟩ := ends_warn.mp h
      cases es with
      | nil => cases he
      | cons _ es =>
          obtain ⟨rfl, rfl⟩ := List.cons.inj he
          exact ends_warn.mpr ⟨_, rfl, ends_of_asks e hf h'⟩
  | call s j q k, es, hf, h => by
      rcases (ends_call_of_error hf.1).mp h with ⟨e', he, rfl, -⟩ | ⟨a, es₁, he, h'⟩
      · obtain ⟨rfl, he⟩ | ⟨_, -, he⟩ := List.append_eq_cons_iff.mp he
        · cases e' <;> cases he
          exact (ends_call_of_error hf.1).mpr (.inl ⟨some e, rfl, rfl, rfl⟩)
        · simp at he
      · cases es with
        | nil => cases he
        | cons _ es =>
            obtain ⟨rfl, rfl⟩ := List.cons.inj he
            exact ends_call.mpr (.inr ⟨_, _, rfl, ends_of_asks e (hf.2 a) h'⟩)

/-- A call that fails leaves just what is left by breaking off in it. -/
theorem ends_iff_of_asks {es es' : List (Event ι)} {i : ι} {r : Request} {e : Fleet.Error} {s t : σ}
    {v : Option (Except ε α)} (hf : op.FailsFast f) (ha : op.Asks es i r s) :
    op.Ends (es ++ .failed i r (some e) :: es') t v ↔ es' = [] ∧ t = s ∧ v = some (.error (f e)) := by
  constructor
  · intro h
    obtain ⟨hv, hes, ha'⟩ := hf.ends h
    exact ⟨hes, (ha.unique ha').1, hv⟩
  · rintro ⟨rfl, rfl, rfl⟩
    exact hf.ends_of_asks e ha

end FailsFast

end NodeGroups.Operation
