import NodeGroups.Proofs.Chains
import NodeGroups.Proofs.Config.Specs
import NodeGroups.Proofs.Provider.Groups

/-!
# Accepted configurations

What has been found sound when a configuration was read stays so when further specs stand behind its own: its durations are
positive, only a further spec can be at fault, and a provider has a group for each spec. Main statement: `accepted`.
-/

namespace NodeGroups

/-! ## Specs -/

namespace Spec

/-- There may be a unit, and the bounds and names make sense. -/
structure IsSound (s : Spec) : Prop where
  minSize_le : s.minSize ≤ s.maxSize
  maxSize_pos : 0 < s.maxSize
  model_ne : s.model ≠ ""
  application_ne : s.application ≠ ""

variable {lo hi model application : List Char} {text : String} {s : Spec}

theorem isSound_of_ofParts (h : ofParts lo hi model application = .ok s) : s.IsSound := by
  obtain ⟨l, -, h⟩ := Except.bind_eq_ok_iff.mp h
  obtain ⟨u, -, h⟩ := Except.bind_eq_ok_iff.mp h
  simp only [Except.ite_throw_eq_ok_iff] at h
  obtain ⟨hu, hle, hne, h⟩ := h
  cases h
  rw [Bool.or_eq_true, not_or, List.isEmpty_iff, List.isEmpty_iff] at hne
  exact ⟨Nat.le_of_not_lt hle, Nat.pos_of_ne_zero hu, by simpa using hne.1, by simpa using hne.2⟩

theorem isSound_of_parse (h : parse text = .ok s) : s.IsSound := by
  unfold parse at h
  split at h
  · exact isSound_of_ofParts h
  · cases h

end Spec

namespace Config

variable {c : Config} {texts extra : List String} {before specs : List Spec} {text : String} {e : Error}

/-! ## What has been validated -/

theorem nonZero_eq_ok_iff {field : String} {d : Duration} {u : Unit} : nonZero field d = .ok u ↔ d.isZero = false := by
  unfold nonZero
  cases d.isZero <;> simp

theorem validate_eq_ok_iff {u : Unit} :
    c.validate = .ok u ↔
      (∃ d, c.interval = .ok d ∧ d.isZero = false) ∧ (∃ d, c.timeout = .ok d ∧ d.isZero = false) ∧
        ∃ specs, c.specs [] = .ok specs := by
  simp only [validate, Except.bind_eq_ok_iff, nonZero_eq_ok_iff]
  constructor
  · rintro ⟨i, hi, -, hi', t, ht, -, ht', specs, hs, -⟩
    exact ⟨⟨i, hi, hi'⟩, ⟨t, ht, ht'⟩, specs, hs⟩
  · rintro ⟨⟨i, hi, hi'⟩, ⟨t, ht, ht'⟩, specs, hs⟩
    exact ⟨i, hi, (), hi', t, ht, (), ht', specs, hs, rfl⟩

theorem validate_of_parse (h : parse text = .ok c) : c.validate = .ok () := by
  obtain ⟨c', -, h'⟩ := Except.bind_eq_ok_iff.mp h
  obtain ⟨_, hv, hc⟩ := Except.bind_eq_ok_iff.mp h'
  cases hc
  exact hv

/-! ## Further specs -/

/-- The id of the group that a text describes, if the text is a spec. -/
def id? (text : String) : Option String := (Spec.parse text).toOption.map (·.id)

def ids (texts : List String) : List String := texts.filterMap id?

/-- The texts are specs of groups with different ids. -/
def Distinct (texts : List String) : Prop := (∀ text ∈ texts, ∃ s, Spec.parse text = .ok s) ∧ (ids texts).Nodup

/-- What is wrong with a text that stands behind others: it is no spec, or its group has the id of a group of theirs. -/
inductive Faulty (others : List String) (text : String) : Error → Prop
  | unreadable {f} : Spec.parse text = .error f → Faulty others text (.invalidSpec text f)
  | repeated {s} : Spec.parse text = .ok s → s.id ∈ ids others → Faulty others text (.duplicateGroup s.id)

theorem ids_of_forall₂ (hf : List.Forall₂ (fun text s => Spec.parse text = .ok s) texts specs) :
    ids texts = specs.map (·.id) := by
  induction hf with
  | nil => rfl
  | @cons text s _ _ hp _ ih => rw [ids, List.filterMap_cons_some (b := s.id) (by rw [id?, hp]; rfl), ← ids, ih, List.map_cons]

theorem isSound_of_forall₂ (hf : List.Forall₂ (fun text s => Spec.parse text = .ok s) texts specs) :
    ∀ s ∈ specs, s.IsSound := by
  induction hf with
  | nil => nofun
  | cons hp _ ih => exact List.forall_mem_cons.mpr ⟨Spec.isSound_of_parse hp, ih⟩

theorem exists_forall₂_iff :
    (∃ specs, List.Forall₂ (fun text s => Spec.parse text = .ok s) texts specs) ↔
      ∀ text ∈ texts, ∃ s, Spec.parse text = .ok s := by
  induction texts with
  | nil => exact iff_of_true ⟨[], .nil⟩ nofun
  | cons text texts ih =>
      rw [List.forall_mem_cons, ← ih]
      constructor
      · rintro ⟨_, _ | ⟨hs, hf⟩⟩
        exact ⟨⟨_, hs⟩, _, hf⟩
      · rintro ⟨⟨s, hs⟩, specs, hf⟩
        exact ⟨s :: specs, .cons hs hf⟩

theorem exists_specs_iff : (∃ specs, c.specs extra = .ok specs) ↔ Distinct (c.groups ++ extra) := by
  rw [Distinct, ← exists_forall₂_iff]
  simp only [specs_eq_ok_iff]
  constructor
  · rintro ⟨specs, hf, hn⟩
    exact ⟨⟨specs, hf⟩, ids_of_forall₂ hf ▸ hn⟩
  · rintro ⟨⟨specs, hf⟩, hn⟩
    exact ⟨specs, hf, ids_of_forall₂ hf ▸ hn⟩

theorem addSpec_eq_error_iff (hf : List.Forall₂ (fun text s => Spec.parse text = .ok s) texts before) :
    addSpec before text = .error e ↔ Faulty texts text e := by
  cases hs : Spec.parse text with
  | error f =>
      rw [addSpec_of_error (e := .invalidSpec text f) (by rw [spec, hs]; rfl)]
      constructor
      · intro h
        cases h
        exact .unreadable hs
      · intro h
        cases h with
        | unreadable h => cases hs.symm.trans h; rfl
        | repeated h => cases hs.symm.trans h
  | ok s =>
      rw [addSpec_of_ok (spec_eq_ok_iff.mpr hs), ← ids_of_forall₂ hf]
      constructor
      · intro h
        split at h
        · next hm =>
          cases h
          exact .repeated hs hm
        · cases h
      · intro h
        cases h with
        | unreadable h => cases hs.symm.trans h
        | repeated h hm =>
            cases hs.symm.trans h
            exact if_pos hm

/-- The configured specs are read first, and further specs are added to them. -/
theorem specs_of_configured (h : c.specs [] = .ok before) : c.specs extra = extra.foldlM addSpec before := by
  rw [Config.specs, List.append_nil] at h
  rw [Config.specs, List.foldlM_append, h]
  rfl

/-- If the configured specs are sound, only a further one can be at fault, and the first that is at fault is told. -/
theorem specs_eq_error_iff (h : c.specs [] = .ok before) :
    c.specs extra = .error e ↔
      ∃ sound text rest, extra = sound ++ text :: rest ∧ Distinct (c.groups ++ sound) ∧ Faulty (c.groups ++ sound) text e := by
  rw [specs_of_configured h, Except.foldlM_eq_error_iff]
  simp only [← specs_of_configured h]
  constructor
  · rintro ⟨sound, text, rest, specs, he, hs, ht⟩
    exact ⟨sound, text, rest, he, exists_specs_iff.mp ⟨specs, hs⟩, (addSpec_eq_error_iff (specs_eq_ok_iff.mp hs).1).mp ht⟩
  · rintro ⟨sound, text, rest, he, hd, ht⟩
    obtain ⟨specs, hs⟩ := exists_specs_iff.mpr hd
    exact ⟨sound, text, rest, specs, he, hs, (addSpec_eq_error_iff (specs_eq_ok_iff.mp hs).1).mpr ht⟩

/-- The configuration has been read from a text. Then its durations are positive, and further specs can be added to its own
just if all of them can be read and no two groups have one id; otherwise the first of the further ones that is at fault is
told. The specs are those of the texts in order, they are sound, and a provider that is set up from them finds a group for
each of them by its id. -/
theorem accepted (h : parse text = .ok c) (extra : List String) :
    (∃ d, c.interval = .ok d ∧ d.isZero = false) ∧ (∃ d, c.timeout = .ok d ∧ d.isZero = false) ∧
      ((∃ specs, c.specs extra = .ok specs) ↔
        (∀ t ∈ extra, ∃ s, Spec.parse t = .ok s) ∧ (ids (c.groups ++ extra)).Nodup) ∧
      (∀ e, c.specs extra = .error e ↔ ∃ sound t rest, extra = sound ++ t :: rest ∧
        Distinct (c.groups ++ sound) ∧ Faulty (c.groups ++ sound) t e) ∧
      ∀ specs, c.specs extra = .ok specs →
        List.Forall₂ (fun t s => Spec.parse t = .ok s) (c.groups ++ extra) specs ∧
          (∀ s ∈ specs, s.IsSound) ∧ (specs.map (·.id)).Nodup ∧
          ∀ source es p, (Provider.start source specs).Ends es () (some (.ok p)) →
            ∀ s ∈ specs, ∃ g, p.group s.id = .ok g ∧ g.IsOf s := by
  obtain ⟨hi, ht, configured, hc⟩ := validate_eq_ok_iff.mp (validate_of_parse h)
  refine ⟨hi, ht, ?_, fun e => specs_eq_error_iff hc, fun specs hs => ?_⟩
  · have hg : Distinct c.groups := by
      have := exists_specs_iff.mp ⟨configured, hc⟩
      rwa [List.append_nil] at this
    rw [exists_specs_iff, Distinct, List.forall_mem_append, and_iff_right hg.1]
  · obtain ⟨hf, hn⟩ := specs_eq_ok_iff.mp hs
    exact ⟨hf, isSound_of_forall₂ hf, hn, fun source es p hp s hs => Provider.group_of_start hp hn hs⟩

/-- A group is configured, and of two further specs the second is for a group of the same id. The first of them alone can be
added. -/
theorem accepted_repeating :
    let c : Config := { groups := ["1:3:m:app"] }
    parse "[[node_groups]]\nspec = \"1:3:m:app\"\n" = .ok c ∧
      c.specs ["0:2:k:app", "2:5:m:app"] = .error (.duplicateGroup "juju-m-app") ∧
      ∃ specs, c.specs ["0:2:k:app"] = .ok specs ∧ ∀ s ∈ specs, s.IsSound := by
  intro c
  have h : parse "[[node_groups]]\nspec = \"1:3:m:app\"\n" = .ok c := by decide +kernel
  have hk : Spec.parse "0:2:k:app" = .ok ⟨0, 2, "k", "app"⟩ := by decide +kernel
  have hm : Spec.parse "2:5:m:app" = .ok ⟨2, 5, "m", "app"⟩ := by decide +kernel
  obtain ⟨-, -, hd, -, ha⟩ := accepted h ["0:2:k:app"]
  obtain ⟨-, -, -, he, -⟩ := accepted h ["0:2:k:app", "2:5:m:app"]
  obtain ⟨specs, hs⟩ := hd.mpr ⟨List.forall_mem_singleton.mpr ⟨_, hk⟩, by decide +kernel⟩
  have hsound : Distinct (c.groups ++ ["0:2:k:app"]) := exists_specs_iff.mp ⟨specs, hs⟩
  refine ⟨h, (he _).mpr ⟨["0:2:k:app"], "2:5:m:app", [], rfl, hsound, ?_⟩, specs, hs, (ha specs hs).2.1⟩
  exact .repeated hm (by decide +kernel)

end Config
end NodeGroups
