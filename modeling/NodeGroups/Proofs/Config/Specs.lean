import Mathlib.Data.List.Forall2
import Mathlib.Data.List.Nodup
import NodeGroups.Config

/-!
# The specs of a configuration

The texts of a configuration, and the others behind them, are read in their order, and no two of their groups may have one
id. Main statement: `specs_eq_ok_iff`.
-/

namespace NodeGroups.Config

variable {texts extra : List String} {before specs : List Spec} {text : String}

theorem spec_eq_ok_iff {s : Spec} : spec text = .ok s ↔ Spec.parse text = .ok s := by
  rw [spec]
  cases Spec.parse text <;> simp [Except.mapError]

theorem addSpec_of_error {e : Error} (hs : spec text = .error e) : addSpec before text = .error e := by
  rw [addSpec, hs]
  rfl

theorem addSpec_of_ok {s : Spec} (hs : spec text = .ok s) :
    addSpec before text =
      if s.id ∈ before.map (·.id) then .error (.duplicateGroup s.id) else .ok (before ++ [s]) := by
  have hb : before.any (·.id == s.id) = true ↔ s.id ∈ before.map (·.id) := by simp
  rw [addSpec, hs]
  by_cases hm : s.id ∈ before.map (·.id)
  · rw [if_pos hm]
    exact if_pos (hb.mpr hm)
  · rw [if_neg hm]
    exact if_neg (mt hb.mp hm)

theorem addSpec_eq_ok_iff :
    addSpec before text = .ok specs ↔
      ∃ s, Spec.parse text = .ok s ∧ s.id ∉ before.map (·.id) ∧ specs = before ++ [s] := by
  simp only [← spec_eq_ok_iff]
  cases hs : spec text with
  | error e => simp [addSpec_of_error hs]
  | ok s =>
      rw [addSpec_of_ok hs]
      constructor
      · intro h
        split at h
        · cases h
        · next hm => exact ⟨s, rfl, hm, (Except.ok.inj h).symm⟩
      · rintro ⟨_, ⟨⟩, hm, rfl⟩
        exact if_neg hm

theorem nodup_ids_concat {s : Spec} :
    ((before ++ [s]).map (·.id)).Nodup ↔ s.id ∉ before.map (·.id) ∧ (before.map (·.id)).Nodup := by
  rw [List.map_append, List.map_singleton, ← List.concat_eq_append, List.nodup_concat]

theorem foldlM_addSpec_eq_ok_iff (hb : (before.map (·.id)).Nodup) :
    texts.foldlM addSpec before = .ok specs ↔
      ∃ added, specs = before ++ added ∧ List.Forall₂ (fun text s => Spec.parse text = .ok s) texts added ∧
        (specs.map (·.id)).Nodup := by
  induction texts generalizing before with
  | nil =>
      rw [List.foldlM_nil]
      constructor
      · intro h
        cases h
        exact ⟨[], (List.append_nil _).symm, .nil, hb⟩
      · rintro ⟨_, rfl, ⟨⟩, -⟩
        exact congrArg _ (List.append_nil _).symm
  | cons text texts ih =>
      rw [List.foldlM_cons]
      constructor
      · intro h
        cases ha : addSpec before text with
        | error e =>
            rw [ha] at h
            cases h
        | ok specs' =>
            rw [ha] at h
            obtain ⟨s, hp, hm, rfl⟩ := addSpec_eq_ok_iff.mp ha
            obtain ⟨added, rfl, hf, hn⟩ := (ih (nodup_ids_concat.mpr ⟨hm, hb⟩)).mp h
            refine ⟨s :: added, ?_, .cons hp hf, hn⟩
            rw [← List.append_cons]
      · rintro ⟨_, rfl, hf, hn⟩
        cases hf with
        | @cons _ s _ added hp hf =>
            have hc : ((before ++ [s]).map (·.id)).Nodup := by
              rw [List.append_cons] at hn
              exact hn.sublist ((List.sublist_append_left ..).map _)
            rw [addSpec_eq_ok_iff.mpr ⟨s, hp, (nodup_ids_concat.mp hc).1, rfl⟩]
            exact (ih hc).mpr ⟨added, List.append_cons .., hf, hn⟩

/-- The specs are those of the texts, if each text is a spec and no two groups have one id. -/
theorem specs_eq_ok_iff {c : Config} :
    c.specs extra = .ok specs ↔
      List.Forall₂ (fun text s => Spec.parse text = .ok s) (c.groups ++ extra) specs ∧ (specs.map (·.id)).Nodup := by
  rw [Config.specs, foldlM_addSpec_eq_ok_iff (by exact List.nodup_nil)]
  constructor
  · rintro ⟨added, rfl, hf, hn⟩
    exact ⟨hf, hn⟩
  · rintro ⟨hf, hn⟩
    exact ⟨specs, rfl, hf, hn⟩

end NodeGroups.Config
