import NodeGroups.Manager
import NodeGroups.Proofs.Table

/-!
# What a manager knows after a change

Each change of a manager is described by the look-ups after it. Main statements: `get?_units_reconciledBy` and
`contains_retired_reconciledBy`, which give the outcome of a reconciliation unit by unit.
-/

namespace NodeGroups

theorem TrackedUnit.phase_resolve (u : TrackedUnit) (name : Option String) : (u.resolve name).phase = u.phase := by
  unfold resolve
  split <;> rfl

theorem TrackedUnit.externalId_resolve (u : TrackedUnit) (name : Option String) :
    (u.resolve name).externalId = u.externalId := by
  unfold resolve
  split <;> rfl

theorem TrackedUnit.identity_resolve (u : TrackedUnit) (name : Option String) :
    (u.resolve name).identity = if u.isResolved then u.identity else name.getD "" := by
  unfold resolve
  split <;> rfl

/-- A unit that is to go away stays so, and no status makes it so. -/
theorem TrackedUnit.phase_observe_eq_deleting_iff (u : TrackedUnit) (status : Fleet.UnitStatus) :
    (u.observe status).phase = .deleting ↔ u.phase = .deleting := by
  unfold observe
  dsimp only
  split
  · next h =>
    simp only [Bool.and_eq_true, decide_eq_true_eq] at h
    simp [h.1]
  · rfl

namespace Manager
open Fleet (Snapshot UnitStatus)

variable {m : Manager} {s : Snapshot} {id j node : String} {u : TrackedUnit} {listed : List (String × UnitStatus)}

/-! ## Removal -/

/-- The unit is tracked and is to go away. -/
def Deleting (m : Manager) (id : String) : Prop := ∃ u, m.units.get? id = some u ∧ u.phase = .deleting

instance : Decidable (m.Deleting id) :=
  decidable_of_iff ((m.units.get? id).any (·.phase == .deleting) = true) (by simp [Deleting, Option.any_eq_true])

theorem get?_units_mark :
    (m.mark id u).units.get? j = if j = id then some { u with phase := .deleting } else m.units.get? j :=
  Table.get?_insert ..

theorem deleting_mark : (m.mark id u).Deleting j ↔ j = id ∨ m.Deleting j := by
  rw [Deleting, get?_units_mark]
  by_cases hj : j = id
  · simp [hj]
  · simp [hj, Deleting]

/-- Whatever the order in which the units are gone over, one is found that is tracked and has the name. -/
theorem backingIn_eq_some {scan : List (String × TrackedUnit)} (hs : scan.Perm m.units.entries)
    (h : backingIn scan node = some (id, u)) : m.units.get? id = some u ∧ u.isResolved = true ∧ u.identity = node := by
  have hp := List.find?_some h
  simp only [Bool.and_eq_true, beq_iff_eq] at hp
  exact ⟨Table.mem_entries_iff.mp (hs.mem_iff.mp (List.mem_of_find?_eq_some h)), hp⟩

theorem backing?_eq_some (h : m.backing? node = some (id, u)) :
    m.units.get? id = some u ∧ u.isResolved = true ∧ u.identity = node :=
  backingIn_eq_some (.refl _) h

/-! ## Growth -/

theorem get?_fresh {before after : Snapshot} :
    (m.fresh before after).get? j =
      ((after.unitsOf m.application).get? j).filter fun _ =>
        !before.lists m.application j && !m.units.contains j :=
  Table.get?_filter ..

theorem contains_fresh_iff {before after : Snapshot} :
    (m.fresh before after).contains j = true ↔
      after.lists m.application j = true ∧ before.lists m.application j = false ∧ m.units.get? j = none := by
  simp only [Table.contains, get?_fresh, Snapshot.lists]
  cases (after.unitsOf m.application).get? j with
  | none => simp
  | some st => simp [Option.filter]

theorem get?_units_track {t : Table UnitStatus} :
    (m.track t.entries).units.get? j =
      ((t.get? j).map fun status => { externalId := j, phase := .creating, status }).or (m.units.get? j) :=
  Table.get?_foldl_insert (fun id status => ({ externalId := id, phase := .creating, status } : TrackedUnit)) j t.entries
    t.keys_nodup m.units

/-! ## Reconciliation -/

/-- What a manager makes of a listed unit. -/
def observed (m : Manager) (s : Snapshot) (id : String) (status : UnitStatus) : Option TrackedUnit :=
  match m.units.get? id with
  | some u => some ((u.resolve (m.source.resolve s status)).observe status)
  | none =>
      if m.retired.contains id || !status.isReady then none
      else some { externalId := id, phase := .running, identity := (m.source.resolve s status).getD "", status }

theorem get?_units_observe {status : UnitStatus} :
    (m.observe s id status).units.get? j = if j = id then m.observed s id status else m.units.get? j := by
  unfold observe observed
  cases hu : m.units.get? id with
  | some u => exact Table.get?_insert ..
  | none =>
      dsimp only
      by_cases hr : (m.retired.contains id || !status.isReady) = true
      · rw [if_pos hr, if_pos hr]
        split
        · next hj => rw [hj, hu]
        · rfl
      · rw [if_neg hr, if_neg hr]
        exact Table.get?_insert ..

/-- An observation changes the units only. -/
theorem observe_eq {status : UnitStatus} :
    m.observe s id status = { m with units := (m.observe s id status).units } := by
  unfold observe
  cases m.units.get? id with
  | some u => rfl
  | none => dsimp only; split <;> rfl

@[simp] theorem retired_observe {status : UnitStatus} : (m.observe s id status).retired = m.retired := by
  rw [observe_eq]

@[simp] theorem source_observe {status : UnitStatus} : (m.observe s id status).source = m.source := by
  rw [observe_eq]

theorem observed_observe {status status' : UnitStatus} (h : j ≠ id) :
    (m.observe s id status).observed s j status' = m.observed s j status' := by
  simp only [observed, get?_units_observe, if_neg h, retired_observe, source_observe]

theorem observeAll_eq : m.observeAll s listed = { m with units := (m.observeAll s listed).units } := by
  induction listed generalizing m with
  | nil => rfl
  | cons e rest ih =>
      have hs : m.observeAll s (e :: rest) = (m.observe s e.1 e.2).observeAll s rest := rfl
      rw [hs, ih, observe_eq]

@[simp] theorem retired_observeAll : (m.observeAll s listed).retired = m.retired := by
  rw [observeAll_eq]

@[simp] theorem application_observeAll : (m.observeAll s listed).application = m.application := by
  rw [observeAll_eq]

theorem get?_units_observeAll (hn : (listed.map (·.1)).Nodup) :
    (m.observeAll s listed).units.get? j = (listed.lookup j).elim (m.units.get? j) (m.observed s j) := by
  induction listed generalizing m with
  | nil => rfl
  | cons e rest ih =>
      obtain ⟨a, x⟩ := e
      rw [List.map_cons, List.nodup_cons] at hn
      refine (ih hn.2).trans ?_
      rw [Table.lookup_cons, get?_units_observe]
      by_cases hj : j = a
      · subst hj
        rw [Table.lookup_eq_none_of_notMem hn.1]
        simp
      · rw [if_neg hj, if_neg hj]
        cases rest.lookup j with
        | none => rfl
        | some st => exact observed_observe hj

theorem contains_retired_forget {units : Table UnitStatus} :
    (m.forget units).retired.contains j = true ↔ m.retired.contains j = true ∧ units.contains j = true := by
  refine Table.contains_filter_iff.trans ?_
  rw [Table.contains_iff (t := m.retired), exists_and_right]

theorem observed_forget {units : Table UnitStatus} {status : UnitStatus} (h : units.contains j = true) :
    (m.forget units).observed s j status = m.observed s j status := by
  have hr : (m.forget units).retired.contains j = m.retired.contains j := by
    rw [Bool.eq_iff_iff, contains_retired_forget, and_iff_left h]
  simp only [observed, hr]
  rfl

/-- Observation leaves a unit that is to go away as it is, and makes no other unit one. -/
theorem observed_deleting_iff {status : UnitStatus} :
    (∃ u, m.observed s j status = some u ∧ u.phase = .deleting) ↔ m.Deleting j := by
  unfold observed Deleting
  cases m.units.get? j with
  | some u =>
      simp only [Option.some.injEq, exists_eq_left', TrackedUnit.phase_observe_eq_deleting_iff,
        TrackedUnit.phase_resolve]
  | none =>
      dsimp only
      split <;> simp

section Reconciled
variable (hn : (listed.map (·.1)).Nodup) (hl : ∀ j, listed.lookup j = (s.unitsOf m.application).get? j)
include hn hl

/-- The units after the listed ones have been taken over and those missing have been marked. -/
private theorem get?_units_marked :
    (((m.forget (s.unitsOf m.application)).observeAll s listed).markMissing (s.unitsOf m.application)).units.get? j =
      match (s.unitsOf m.application).get? j with
      | some st => m.observed s j st
      | none => (m.units.get? j).map fun u => { u with phase := .deleting } := by
  simp only [markMissing, Table.get?_map, get?_units_observeAll hn, hl]
  cases hj : (s.unitsOf m.application).get? j with
  | none => simp [Table.contains, hj, forget]
  | some st =>
      have hc : (s.unitsOf m.application).contains j = true := Table.contains_iff.mpr ⟨st, hj⟩
      simp [hc, observed_forget hc]

/-- After a reconciliation just the listed units are tracked that are not to go away. -/
theorem get?_units_reconciledBy :
    (m.reconciledBy s listed).units.get? j =
      ((s.unitsOf m.application).get? j).bind fun st => (m.observed s j st).filter (·.phase != .deleting) := by
  refine (Table.get?_filter ..).trans ?_
  rw [get?_units_marked hn hl]
  cases (s.unitsOf m.application).get? j with
  | none => cases m.units.get? j <;> simp [Option.filter]
  | some st => rfl

/-- After a reconciliation just those listed units are retired that were, or that were to go away. -/
theorem contains_retired_reconciledBy :
    (m.reconciledBy s listed).retired.contains j = true ↔
      s.lists m.application j = true ∧ (m.retired.contains j = true ∨ m.Deleting j) := by
  refine (Table.contains_foldl_insert_unit ..).trans ?_
  rw [Table.mem_keys_iff, Table.contains_filter_iff, get?_units_marked hn hl]
  simp only [markMissing, retired_observeAll, contains_retired_forget, beq_iff_eq, Snapshot.lists]
  cases hj : (s.unitsOf m.application).get? j with
  | none => simp [Table.contains, hj]
  | some st =>
      have hc : (s.unitsOf m.application).contains j = true := Table.contains_iff.mpr ⟨st, hj⟩
      simp only [hc, observed_deleting_iff, and_true, true_and]

end Reconciled

theorem get?_units_reconciled :
    (m.reconciled s).units.get? j =
      ((s.unitsOf m.application).get? j).bind fun st => (m.observed s j st).filter (·.phase != .deleting) :=
  get?_units_reconciledBy (s.unitsOf m.application).keys_nodup fun _ => rfl

theorem contains_retired_reconciled :
    (m.reconciled s).retired.contains j = true ↔
      s.lists m.application j = true ∧ (m.retired.contains j = true ∨ m.Deleting j) :=
  contains_retired_reconciledBy (s.unitsOf m.application).keys_nodup fun _ => rfl

/-- A unit that is tracked after a reconciliation is listed and is to stay. Either it was tracked before, or it is ready and
has been taken up. -/
theorem reconciled_eq_some (hu : (m.reconciled s).units.get? id = some u) :
    ∃ st, s.unit? m.application id = some st ∧ u.phase ≠ .deleting ∧
      ((∃ w, m.units.get? id = some w ∧ u = (w.resolve (m.source.resolve s st)).observe st) ∨
        (m.units.get? id = none ∧
          u = { externalId := id, phase := .running, identity := (m.source.resolve s st).getD "", status := st })) := by
  rw [get?_units_reconciled, Option.bind_eq_some_iff] at hu
  obtain ⟨st, hst, hf⟩ := hu
  obtain ⟨ho, hp⟩ := Option.filter_eq_some_iff.mp hf
  refine ⟨st, hst, by simpa using hp, ?_⟩
  unfold observed at ho
  split at ho
  · next w hw => exact .inl ⟨w, hw, (Option.some.inj ho).symm⟩
  · next hn =>
    split at ho
    · cases ho
    · exact .inr ⟨hn, (Option.some.inj ho).symm⟩

@[simp] theorem application_reconciled : (m.reconciled s).application = m.application :=
  application_observeAll

/-- A reconciliation changes the units and the retired ones only. -/
theorem reconciledBy_eq :
    m.reconciledBy s listed =
      { m with units := (m.reconciledBy s listed).units, retired := (m.reconciledBy s listed).retired } := by
  unfold reconciledBy markMissing dropDeleted
  dsimp only
  rw [observeAll_eq]
  rfl

theorem reconciled_eq :
    m.reconciled s = { m with units := (m.reconciled s).units, retired := (m.reconciled s).retired } :=
  reconciledBy_eq

@[simp] theorem source_reconciled : (m.reconciled s).source = m.source := by
  rw [reconciled_eq]

/-- It does not matter in which order the listed units are looked at. -/
theorem reconciledBy_eq_reconciled (h : listed.Perm (s.unitsOf m.application).entries) :
    m.reconciledBy s listed = m.reconciled s := by
  have hn : (listed.map (·.1)).Nodup := (h.map _).nodup_iff.mpr (s.unitsOf m.application).keys_nodup
  have hl : ∀ j, listed.lookup j = (s.unitsOf m.application).get? j := Table.lookup_eq_of_perm h hn
  have hu : (m.reconciledBy s listed).units = (m.reconciled s).units :=
    Table.ext_get? fun j => by rw [get?_units_reconciledBy hn hl, get?_units_reconciled]
  have hr : (m.reconciledBy s listed).retired = (m.reconciled s).retired :=
    Table.ext_contains fun j => by rw [contains_retired_reconciledBy hn hl, contains_retired_reconciled]
  rw [reconciledBy_eq, hu, hr, ← reconciled_eq]

end Manager
end NodeGroups
