import NodeGroups.Proofs.Manager.Comeback

/-!
# Units that stay

A tracked unit either is to go away or stays. Which units stay is followed through every change of a manager.
-/

namespace NodeGroups
open Fleet (IdentitySource Snapshot)

namespace Manager

variable {m : Manager} {id : String}

/-- The unit is tracked and is to stay. -/
def Staying (m : Manager) (id : String) : Prop := ∃ u, m.units.get? id = some u ∧ u.phase ≠ .deleting

theorem staying_or_deleting_iff : m.Staying id ∨ m.Deleting id ↔ ∃ u, m.units.get? id = some u := by
  constructor
  · rintro (⟨u, hu, -⟩ | ⟨u, hu, -⟩) <;> exact ⟨u, hu⟩
  · rintro ⟨u, hu⟩
    by_cases hp : u.phase = .deleting
    · exact .inr ⟨u, hu, hp⟩
    · exact .inl ⟨u, hu, hp⟩

theorem Staying.not_deleting (h : m.Staying id) : ¬ m.Deleting id := by
  obtain ⟨u, hu, hp⟩ := h
  rintro ⟨w, hw, hwp⟩
  rw [hu] at hw
  cases hw
  exact hp hwp

theorem Leaving.not_staying (h : m.Leaving id) : ¬ m.Staying id := by
  intro hs
  rcases h with hd | ⟨hn, -⟩
  · exact hs.not_deleting hd
  · obtain ⟨u, hu, -⟩ := hs
    rw [hn] at hu
    cases hu

theorem size_eq_card {live : Finset String} (hl : ∀ id, id ∈ live ↔ m.Staying id) (hd : ∀ id, ¬ m.Deleting id) :
    m.size = live.card :=
  Table.size_eq_card fun id => by rw [hl, Table.contains_iff, ← staying_or_deleting_iff, or_iff_left (hd id)]

theorem staying_mark {j : String} {u : TrackedUnit} : (m.mark id u).Staying j ↔ j ≠ id ∧ m.Staying j := by
  rw [Staying, get?_units_mark]
  by_cases hj : j = id
  · simp [hj]
  · simp [hj, Staying]

theorem staying_track {before after : Snapshot} :
    (m.track (m.fresh before after).entries).Staying id ↔
      (m.fresh before after).contains id = true ∨ m.Staying id := by
  rw [Staying, get?_units_track, Table.contains]
  cases hf : (m.fresh before after).get? id with
  | none => simp [Staying]
  | some st => simp

theorem deleting_track {before after : Snapshot} :
    (m.track (m.fresh before after).entries).Deleting id ↔ m.Deleting id := by
  rw [Deleting, get?_units_track]
  cases hf : (m.fresh before after).get? id with
  | none => simp [Deleting]
  | some st =>
      obtain ⟨-, -, hu⟩ := contains_fresh_iff.mp (Table.contains_iff.mpr ⟨st, hf⟩)
      simp [Deleting, hu]

theorem not_deleting_reconciled {s : Snapshot} : ¬ (m.reconciled s).Deleting id := by
  rintro ⟨u, hu, hp⟩
  rw [get?_units_reconciled, Option.bind_eq_some_iff] at hu
  obtain ⟨st, -, hf⟩ := hu
  simp [Option.filter_eq_some_iff, hp] at hf

theorem Staying.reconciled {s : Snapshot} (h : m.Staying id) (hl : s.lists m.application id = true) :
    (m.reconciled s).Staying id := by
  obtain ⟨u, hu, hp⟩ := h
  obtain ⟨st, hst⟩ := Table.contains_iff.mp hl
  have ho : ((u.resolve (m.source.resolve s st)).observe st).phase ≠ .deleting := by
    rwa [Ne, TrackedUnit.phase_observe_eq_deleting_iff, TrackedUnit.phase_resolve]
  refine ⟨_, ?_, ho⟩
  rw [get?_units_reconciled, hst]
  simp [observed, hu, Option.filter, ho]

theorem Staying.lists_of_reconciled {s : Snapshot} (h : (m.reconciled s).Staying id) :
    s.lists m.application id = true := by
  obtain ⟨u, hu, -⟩ := h
  rw [get?_units_reconciled, Option.bind_eq_some_iff] at hu
  obtain ⟨st, hst, -⟩ := hu
  exact Table.contains_iff.mpr ⟨st, hst⟩

theorem staying_ofSnapshot {source : IdentitySource} {model app : String} {s : Snapshot} :
    (ofSnapshot source model app s).Staying id ↔ s.lists app id = true := by
  have hp : ∀ st, Phase.observed st ≠ .deleting := by
    intro st
    unfold Phase.observed
    split <;> nofun
  simp [Staying, ofSnapshot, Table.get?_map, Snapshot.lists, Table.contains_iff, hp]

theorem not_deleting_ofSnapshot {source : IdentitySource} {model app : String} {s : Snapshot} :
    ¬ (ofSnapshot source model app s).Deleting id := by
  have hp : ∀ st, Phase.observed st ≠ .deleting := by
    intro st
    unfold Phase.observed
    split <;> nofun
  simp [Deleting, ofSnapshot, Table.get?_map, hp]

end Manager
end NodeGroups
