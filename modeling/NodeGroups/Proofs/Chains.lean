/-!
# Chains that stop at the first error

A chain of steps succeeds just if each step does. A fold fails with the error of the first step that fails.
-/

namespace NodeGroups.Except

variable {ε α β : Type} {e : ε}

theorem bind_eq_ok_iff {x : Except ε α} {f : α → Except ε β} {b : β} :
    x >>= f = .ok b ↔ ∃ a, x = .ok a ∧ f a = .ok b := by
  cases x with
  | error e => exact iff_of_false nofun nofun
  | ok a => exact ⟨fun h => ⟨a, rfl, h⟩, fun ⟨_, ha, h⟩ => by cases ha; exact h⟩

/-- A step that only looks for a fault. -/
theorem ite_throw_eq_ok_iff {c : Prop} [Decidable c] {x : Except ε α} {a : α} :
    (if c then do throw e; x else x) = .ok a ↔ ¬ c ∧ x = .ok a := by
  by_cases hc : c
  · rw [if_pos hc]
    exact iff_of_false nofun fun h => h.1 hc
  · rw [if_neg hc, and_iff_right hc]

/-- A first part that succeeds hands on what it has come to. -/
theorem foldlM_append_of_ok {f : β → α → Except ε β} {b b' : β} {as : List α} (h : as.foldlM f b = .ok b')
    (rest : List α) : (as ++ rest).foldlM f b = rest.foldlM f b' := by
  rw [List.foldlM_append, h]
  rfl

theorem foldlM_cons_of_ok {f : β → α → Except ε β} {b b' : β} {a : α} (h : f b a = .ok b') (rest : List α) :
    (a :: rest).foldlM f b = rest.foldlM f b' := by
  rw [List.foldlM_cons, h]
  rfl

/-- The fold fails just if a step does behind a first part that succeeds. -/
theorem foldlM_eq_error_iff {f : β → α → Except ε β} {as : List α} {b : β} :
    as.foldlM f b = .error e ↔
      ∃ before a after b', as = before ++ a :: after ∧ before.foldlM f b = .ok b' ∧ f b' a = .error e := by
  constructor
  · intro h
    induction as generalizing b with
    | nil => cases h
    | cons a as ih =>
        cases ha : f b a with
        | error e' =>
            rw [List.foldlM_cons, ha] at h
            cases h
            exact ⟨[], a, as, b, rfl, rfl, ha⟩
        | ok c =>
            rw [foldlM_cons_of_ok ha] at h
            obtain ⟨before, a', after, b', rfl, hb, ha'⟩ := ih h
            exact ⟨a :: before, a', after, b', rfl, (foldlM_cons_of_ok ha before).trans hb, ha'⟩
  · rintro ⟨before, a, after, b', rfl, hb, ha⟩
    rw [foldlM_append_of_ok hb, List.foldlM_cons, ha]
    rfl

/-- What each step keeps is kept by the fold. -/
theorem foldlM_keeps {f : β → α → Except ε β} {P : β → Prop} (hf : ∀ b a b', f b a = .ok b' → P b → P b') :
    {as : List α} → {b b' : β} → as.foldlM f b = .ok b' → P b → P b'
  | [], _, _, h, hb => by
      cases h
      exact hb
  | a :: as, b, b', h, hb => by
      rw [List.foldlM_cons] at h
      obtain ⟨c, hc, h⟩ := bind_eq_ok_iff.mp h
      exact foldlM_keeps hf h (hf b a c hc hb)

end NodeGroups.Except
