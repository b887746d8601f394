import NodeGroups.Proofs.Config.Acceptance
import NodeGroups.Proofs.Text.Written

/-!
# The grammar of specs

Which texts are specs, and what they say, is told of their characters. A spec that has been read is written so that it is read
again as it is. Main statement: `read_as_written`.
-/

namespace NodeGroups.Spec
open Text (AreDigits Numeral Tight Trims)

variable {lo hi model application t : List Char} {text : String} {s : Spec} {n : Nat}

/-- Two numbers and two names with colons between them. -/
def joined (lo hi model application : List Char) : List Char :=
  lo ++ ':' :: (hi ++ ':' :: (model ++ ':' :: application))

/-- The text, which has no blanks around it, is the spec as it may be written. -/
structure Writes (t : List Char) (s : Spec) : Prop where
  form : ∃ lo hi, Numeral lo s.minSize ∧ Numeral hi s.maxSize ∧ t = joined lo hi s.model.toList s.application.toList
  words : s.minSize < Text.naturalBound ∧ s.maxSize < Text.naturalBound
  whole : ':' ∉ s.model.toList ∧ ':' ∉ s.application.toList
  sound : s.IsSound

/-! ## Reading -/

theorem colon_notMem_of_numeral (h : Numeral lo n) : ':' ∉ lo := by
  obtain ⟨ds, hds, hlo, -⟩ := h
  have hc : ':' ∉ ds := fun hm => absurd (hds.2 _ hm) (by decide)
  rcases hlo with rfl | rfl
  · exact hc
  · exact List.not_mem_cons_of_ne_of_not_mem (by decide) hc

theorem splitOn_eq_parts_iff :
    t.splitOn ':' = [lo, hi, model, application] ↔
      t = joined lo hi model application ∧ ∀ part ∈ [lo, hi, model, application], ':' ∉ part := by
  rw [Text.splitOn_eq_iff (List.cons_ne_nil _ _), eq_comm (a := t)]
  simp [List.intercalate, joined]

theorem elim_eq_ok_iff {f : Fault} {o : Option Nat} : o.elim (.error f) .ok = Except.ok n ↔ o = some n := by
  cases o <;> simp

theorem ofParts_eq_ok_iff :
    ofParts lo hi model application = .ok s ↔
      Text.natural? lo = some s.minSize ∧ Text.natural? hi = some s.maxSize ∧ model = s.model.toList ∧
        application = s.application.toList ∧ s.IsSound := by
  constructor
  · intro h
    have hsound := isSound_of_ofParts h
    obtain ⟨l, hl, h⟩ := Except.bind_eq_ok_iff.mp h
    obtain ⟨u, hu, h⟩ := Except.bind_eq_ok_iff.mp h
    simp only [Except.ite_throw_eq_ok_iff] at h
    obtain ⟨-, -, -, h⟩ := h
    cases h
    exact ⟨elim_eq_ok_iff.mp hl, elim_eq_ok_iff.mp hu, String.toList_ofList.symm, String.toList_ofList.symm, hsound⟩
  · rintro ⟨hl, hu, rfl, rfl, hs⟩
    refine Except.bind_eq_ok_iff.mpr ⟨_, elim_eq_ok_iff.mpr hl, Except.bind_eq_ok_iff.mpr ⟨_, elim_eq_ok_iff.mpr hu, ?_⟩⟩
    simp only [Except.ite_throw_eq_ok_iff]
    refine ⟨Nat.ne_of_gt hs.maxSize_pos, Nat.not_lt.mpr hs.minSize_le, ?_, ?_⟩
    · simp [hs.model_ne, hs.application_ne]
    · rw [String.ofList_toList, String.ofList_toList]
      rfl

theorem parse_eq_ok_iff : parse text = .ok s ↔ ∃ t, Trims text.toList t ∧ Writes t s := by
  have ht : (∃ t, Trims text.toList t ∧ Writes t s) ↔ Writes (Text.trimmed text.toList) s := by
    simp [← Text.trimmed_eq_iff]
  rw [ht, parse]
  generalize Text.trimmed text.toList = t
  constructor
  · intro h
    split at h
    · next lo hi model application hp =>
      obtain ⟨hl, hu, rfl, rfl, hs⟩ := ofParts_eq_ok_iff.mp h
      obtain ⟨hl, hlt⟩ := Text.natural?_eq_some_iff.mp hl
      obtain ⟨hu, hut⟩ := Text.natural?_eq_some_iff.mp hu
      obtain ⟨hf, hc⟩ := splitOn_eq_parts_iff.mp hp
      exact ⟨⟨lo, hi, hl, hu, hf⟩, ⟨hlt, hut⟩, ⟨hc _ (by simp), hc _ (by simp)⟩, hs⟩
    · cases h
  · rintro ⟨⟨lo, hi, hl, hu, hf⟩, ⟨hlt, hut⟩, ⟨hm, ha⟩, hs⟩
    have hp : t.splitOn ':' = [lo, hi, s.model.toList, s.application.toList] := by
      refine splitOn_eq_parts_iff.mpr ⟨hf, ?_⟩
      simp [colon_notMem_of_numeral hl, colon_notMem_of_numeral hu, hm, ha]
    rw [hp]
    exact ofParts_eq_ok_iff.mpr
      ⟨Text.natural?_eq_some_iff.mpr ⟨hl, hlt⟩, Text.natural?_eq_some_iff.mpr ⟨hu, hut⟩, rfl, rfl, hs⟩

/-! ## Writing -/

theorem toList_render (s : Spec) :
    s.render.toList =
      joined (Nat.toDigits 10 s.minSize) (Nat.toDigits 10 s.maxSize) s.model.toList s.application.toList := by
  simp [render, joined, Nat.toString_eq_repr, Nat.toList_repr, String.toList_append]

theorem isBlank_of_isDigit {c : Char} (h : c.isDigit = true) : Text.isBlank c = false := by
  have hd : 0x30 ≤ c.toNat ∧ c.toNat ≤ 0x39 := by simpa [Char.isDigit, UInt32.le_iff_toNat_le] using h
  simp only [Text.isBlank, Bool.or_eq_false_iff, Bool.and_eq_false_iff, decide_eq_false_iff_not, beq_eq_false_iff_ne]
  omega

theorem getLast?_joined (h : application ≠ []) : (joined lo hi model application).getLast? = application.getLast? := by
  cases application with
  | nil => exact absurd rfl h
  | cons c cs => simp [joined, List.getLast?_append, List.getLast?_cons]

/-- No blank stands at the beginning, where there is a digit, nor at the end, where the name is that was read. -/
theorem Writes.tight_render (h : Writes t s) (ht : Tight t) : Tight s.render.toList := by
  obtain ⟨lo, hi, -, -, hf⟩ := h.form
  have hne : s.application.toList ≠ [] := by simpa using h.sound.application_ne
  rw [toList_render]
  refine ⟨fun c hc => ?_, fun c hc => ht.last c ?_⟩
  · rw [joined, List.head?_append_of_ne_nil _ Nat.toDigits_ne_nil] at hc
    exact isBlank_of_isDigit ((Text.areDigits_toDigits _).2 c (List.mem_of_head? hc))
  · rwa [hf, getLast?_joined hne, ← getLast?_joined hne]

theorem Writes.render (h : Writes t s) : Writes s.render.toList s where
  form := ⟨_, _, Text.numeral_toDigits _, Text.numeral_toDigits _, toList_render s⟩
  words := h.words
  whole := h.whole
  sound := h.sound

theorem parse_render (h : parse text = .ok s) : parse s.render = .ok s := by
  obtain ⟨t, ht, hw⟩ := parse_eq_ok_iff.mp h
  exact parse_eq_ok_iff.mpr ⟨s.render.toList, (hw.tight_render ht.1).trims, hw.render⟩

/-- A text is read as a spec just if, without the blanks around it, it is two numbers and two names with colons between them,
and these make sense together. What is read is these numbers and names. Written out, the spec is read again as it is. -/
theorem read_as_written :
    (∀ text s, parse text = .ok s ↔ ∃ t, Trims text.toList t ∧ Writes t s) ∧
      ∀ text s, parse text = .ok s → parse s.render = .ok s :=
  ⟨fun _ _ => parse_eq_ok_iff, fun _ _ => parse_render⟩

/-- Blanks around a spec, and plus signs and zeros before its numbers, are not written again. -/
theorem read_as_written_blank :
    parse "\u2003+0:007:my model: app\n" = .ok ⟨0, 7, "my model", " app"⟩ ∧
      parse "0:7:my model: app" = .ok ⟨0, 7, "my model", " app"⟩ := by
  have h : parse "\u2003+0:007:my model: app\n" = .ok ⟨0, 7, "my model", " app"⟩ := by decide +kernel
  have hr : render ⟨0, 7, "my model", " app"⟩ = "0:7:my model: app" := by decide +kernel
  have hp := read_as_written.2 _ _ h
  rw [hr] at hp
  exact ⟨h, hp⟩

end NodeGroups.Spec
