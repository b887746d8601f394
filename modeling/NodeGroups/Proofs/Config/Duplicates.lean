import NodeGroups.Proofs.Config.Acceptance

/-!
# Groups of one id

The id of a group joins the names of its model and its application by a hyphen, which may be in the names too. Two specs have
one id if they name the same, or if the hyphen that joins the names of one is in a name of the other. Only then is a
configuration refused for a duplicate. Main statement: `duplicateGroup_iff`.
-/

namespace NodeGroups

namespace Spec

variable {s s' : Spec}

/-- The specs are of one application of one model. -/
def NamesSame (s s' : Spec) : Prop := s.model = s'.model ∧ s.application = s'.application

/-- The model of the second spec goes on behind a hyphen with what the application of the first begins with before one. -/
def Shifts (s s' : Spec) : Prop :=
  ∃ x : String, s'.model = s.model ++ "-" ++ x ∧ s.application = x ++ "-" ++ s'.application

theorem shifts_iff :
    Shifts s s' ↔ ∃ x, s'.model.toList = s.model.toList ++ '-' :: x ∧
      s.application.toList = x ++ '-' :: s'.application.toList := by
  constructor
  · rintro ⟨x, hm, ha⟩
    exact ⟨x.toList, by simp [hm], by simp [ha]⟩
  · rintro ⟨x, hm, ha⟩
    refine ⟨String.ofList x, ?_, ?_⟩
    · apply String.toList_inj.mp
      simp [hm]
    · apply String.toList_inj.mp
      simp [ha]

theorem id_eq_iff_append :
    s.id = s'.id ↔
      s.model.toList ++ '-' :: s.application.toList = s'.model.toList ++ '-' :: s'.application.toList := by
  rw [← String.toList_inj]
  simp [Spec.id, String.toList_append]

/-- The hyphen that joins the names of the second spec stands in the rest that its model has over that of the first. -/
theorem namesSame_or_shifts {rest : List Char} (hm : s'.model.toList = s.model.toList ++ rest)
    (ha : '-' :: s.application.toList = rest ++ '-' :: s'.application.toList) : NamesSame s s' ∨ Shifts s s' := by
  cases rest with
  | nil =>
      rw [List.append_nil] at hm
      exact .inl ⟨String.toList_inj.mp hm.symm, String.toList_inj.mp (List.cons.inj ha).2⟩
  | cons c x =>
      obtain ⟨rfl, ha'⟩ := List.cons.inj ha
      exact .inr (shifts_iff.mpr ⟨x, hm, ha'⟩)

theorem id_eq_iff : s.id = s'.id ↔ NamesSame s s' ∨ Shifts s s' ∨ Shifts s' s := by
  rw [id_eq_iff_append]
  constructor
  · intro h
    rcases List.append_eq_append_iff.mp h with ⟨rest, hm, ha⟩ | ⟨rest, hm, ha⟩
    · exact (namesSame_or_shifts hm ha).imp_right .inl
    · rcases namesSame_or_shifts hm ha with ⟨hm, ha⟩ | h
      · exact .inl ⟨hm.symm, ha.symm⟩
      · exact .inr (.inr h)
  · rw [shifts_iff, shifts_iff]
    rintro (⟨hm, ha⟩ | ⟨x, hm, ha⟩ | ⟨x, hm, ha⟩)
    · rw [hm, ha]
    · simp [hm, ha]
    · simp [hm, ha]

end Spec

namespace Config
open Spec (NamesSame Shifts)

variable {c : Config} {texts extra : List String} {specs : List Spec} {e : Error}

/-- Two specs, one behind the other, are of groups that have one id. -/
def Clash (specs : List Spec) : Prop :=
  ∃ (i j : Nat) (s s' : Spec), i < j ∧ specs[i]? = some s ∧ specs[j]? = some s' ∧ (NamesSame s s' ∨ Shifts s s' ∨ Shifts s' s)

theorem clash_iff : Clash specs ↔ ¬ (specs.map (·.id)).Nodup := by
  simp only [List.nodup_iff_getElem?_ne_getElem?, not_forall, not_not, List.length_map, List.getElem?_map]
  constructor
  · rintro ⟨i, j, s, s', hij, hs, hs', hn⟩
    refine ⟨i, j, hij, (List.getElem?_eq_some_iff.mp hs').1, ?_⟩
    rw [hs, hs', Option.map_some, Option.map_some, Spec.id_eq_iff.mpr hn]
  · rintro ⟨i, j, hij, hj, he⟩
    have hi : i < specs.length := Nat.lt_trans hij hj
    rw [List.getElem?_eq_getElem hi, List.getElem?_eq_getElem hj, Option.map_some, Option.map_some] at he
    exact ⟨i, j, _, _, hij, List.getElem?_eq_getElem hi, List.getElem?_eq_getElem hj, Spec.id_eq_iff.mp (Option.some.inj he)⟩

theorem eq_of_forall₂ {specs' : List Spec} (hf : List.Forall₂ (fun text s => Spec.parse text = .ok s) texts specs)
    (hf' : List.Forall₂ (fun text s => Spec.parse text = .ok s) texts specs') : specs = specs' := by
  refine Relator.RightUnique.forall₂ (fun text s s' hs hs' => ?_) hf hf'
  exact Except.ok.inj (hs.symm.trans hs')

/-- Texts that are all specs can only be refused for a duplicate. -/
theorem eq_duplicateGroup_of_error (hp : ∀ text ∈ c.groups ++ extra, ∃ s, Spec.parse text = .ok s)
    (h : c.specs extra = .error e) : ∃ id, e = .duplicateGroup id := by
  obtain ⟨before, text, after, specs, ht, hb, ha⟩ := Except.foldlM_eq_error_iff.mp h
  obtain ⟨s, hs⟩ := hp text (by simp [ht])
  rw [addSpec_of_ok (spec_eq_ok_iff.mpr hs)] at ha
  split at ha
  · cases ha
    exact ⟨_, rfl⟩
  · cases ha

/-- All texts are specs. Then they are refused for a duplicate just if two of the specs are of groups that have one id. This is
so for two specs just if they name the same model and the same application, or the hyphen that joins the names of one is in a
name of the other. -/
theorem duplicateGroup_iff (hp : ∀ text ∈ c.groups ++ extra, ∃ s, Spec.parse text = .ok s) :
    ((∃ id, c.specs extra = .error (.duplicateGroup id)) ↔
      ∃ specs, List.Forall₂ (fun text s => Spec.parse text = .ok s) (c.groups ++ extra) specs ∧ Clash specs) ∧
    ∀ s s' : Spec, s.id = s'.id ↔ NamesSame s s' ∨ Shifts s s' ∨ Shifts s' s := by
  refine ⟨?_, fun _ _ => Spec.id_eq_iff⟩
  obtain ⟨specs, hf⟩ := exists_forall₂_iff.mpr hp
  have hok : (∃ specs, c.specs extra = .ok specs) ↔ (specs.map (·.id)).Nodup := by
    rw [exists_specs_iff, Distinct, and_iff_right hp, ids_of_forall₂ hf]
  constructor
  · rintro ⟨id, h⟩
    refine ⟨specs, hf, clash_iff.mpr fun hn => ?_⟩
    obtain ⟨_, hs⟩ := hok.mpr hn
    rw [h] at hs
    cases hs
  · rintro ⟨_, hf', hc⟩
    obtain rfl := eq_of_forall₂ hf hf'
    cases h : c.specs extra with
    | ok specs => exact absurd (hok.mp ⟨specs, h⟩) (clash_iff.mp hc)
    | error e =>
        obtain ⟨id, rfl⟩ := eq_duplicateGroup_of_error hp h
        exact ⟨id, rfl⟩

/-- Applications of two models, and the id that both groups would have. -/
def shifted : List String := ["0:2:prod-eu:web", "0:2:prod:eu-web"]

theorem forall₂_shifted :
    List.Forall₂ (fun text s => Spec.parse text = .ok s) (({} : Config).groups ++ shifted)
      [⟨0, 2, "prod-eu", "web"⟩, ⟨0, 2, "prod", "eu-web"⟩] :=
  .cons (by decide +kernel) (.cons (by decide +kernel) .nil)

theorem duplicateGroup_iff_shifted :
    (∀ text ∈ shifted, ∃ s, Spec.parse text = .ok s) ∧
      ∃ id, ({} : Config).specs shifted = .error (.duplicateGroup id) := by
  have hp := exists_forall₂_iff.mp ⟨_, forall₂_shifted⟩
  refine ⟨hp, (duplicateGroup_iff hp).1.mpr ⟨_, forall₂_shifted, 0, 1, _, _, Nat.zero_lt_one, rfl, rfl, ?_⟩⟩
  exact .inr (.inr ⟨"eu", by decide +kernel, by decide +kernel⟩)

/-- The two specs are refused for a duplicate, though they name different models and different applications. -/
theorem not_namesSame_shifted : ¬ ∀ (c : Config) (extra : List String),
    (∀ text ∈ c.groups ++ extra, ∃ s, Spec.parse text = .ok s) →
      (∃ id, c.specs extra = .error (.duplicateGroup id)) →
        ∃ specs, List.Forall₂ (fun text s => Spec.parse text = .ok s) (c.groups ++ extra) specs ∧
          ∃ (i j : Nat) (s s' : Spec), i < j ∧ specs[i]? = some s ∧ specs[j]? = some s' ∧ NamesSame s s' := by
  intro h
  have hd : ∃ id, ({} : Config).specs shifted = .error (.duplicateGroup id) := ⟨"juju-prod-eu-web", by decide +kernel⟩
  obtain ⟨specs, hf, i, j, s, s', hij, hs, hs', hn⟩ := h {} shifted (exists_forall₂_iff.mp ⟨_, forall₂_shifted⟩) hd
  obtain rfl := eq_of_forall₂ hf forall₂_shifted
  have hj : j < 2 := (List.getElem?_eq_some_iff.mp hs').1
  obtain rfl : j = 1 := by omega
  obtain rfl : i = 0 := by omega
  cases hs
  cases hs'
  exact absurd hn.1 (by decide)

end Config
end NodeGroups
