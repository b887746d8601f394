import NodeGroups.Proofs.Manager.Ending
import NodeGroups.Proofs.Manager.Lookup
import NodeGroups.Proofs.Replies

/-!
# The outcome of a reconciliation

What a reconciliation makes of a manager can be told unit by unit from the manager and the snapshot, whatever the order in
which its passes go through the units. Main statement: `reconcile_outcome`.
-/

namespace NodeGroups.Manager
open Fleet (Snapshot UnitStatus)
open Operation

variable {m m' t : Manager} {s : Snapshot} {id j : String} {u w : TrackedUnit} {listed : Table UnitStatus}
  {order : List String}

/-! ## Passes in any order -/

/-- Marks the unit if it is tracked and not listed. -/
def markIfMissing (listed : Table UnitStatus) (m : Manager) (id : String) : Manager :=
  { m with units := m.units.map fun j u => if j = id ∧ listed.contains j = false then { u with phase := .deleting } else u }

/-- Drops the unit if it is to go away, and retires it if it is still listed. -/
def dropIfDeleted (listed : Table UnitStatus) (m : Manager) (id : String) : Manager :=
  if m.Deleting id then
    { m with
      units := m.units.filter fun j _ => j != id
      retired := if listed.contains id then m.retired.insert id () else m.retired }
  else m

theorem get?_units_foldl_markIfMissing :
    (order.foldl (markIfMissing listed) m).units.get? j =
      (m.units.get? j).map fun u =>
        if j ∈ order ∧ listed.contains j = false then { u with phase := .deleting } else u := by
  induction order generalizing m with
  | nil => simp
  | cons id rest ih =>
      rw [List.foldl_cons, ih, markIfMissing, Table.get?_map, Option.map_map]
      congr
      funext u
      by_cases hj : j = id
      · subst hj
        by_cases hl : listed.contains j = false <;> simp [hl]
      · simp [hj]

theorem foldl_markIfMissing_eq :
    order.foldl (markIfMissing listed) m = { m with units := (order.foldl (markIfMissing listed) m).units } := by
  induction order generalizing m with
  | nil => rfl
  | cons id rest ih =>
      rw [List.foldl_cons, ih]
      rfl

/-- The pass that marks the missing units may take the tracked ones in any order. -/
theorem foldl_markIfMissing_eq_markMissing (h : order.Perm m.units.keys) :
    order.foldl (markIfMissing listed) m = m.markMissing listed := by
  rw [foldl_markIfMissing_eq, markMissing]
  congr
  refine Table.ext_get? fun j => ?_
  rw [get?_units_foldl_markIfMissing, Table.get?_map]
  cases hj : m.units.get? j with
  | none => rfl
  | some u =>
      have hm : j ∈ order := h.mem_iff.mpr (Table.mem_keys_iff.mpr (Table.contains_iff.mpr ⟨u, hj⟩))
      cases hl : listed.contains j <;> simp [hm]

theorem get?_units_dropIfDeleted :
    (m.dropIfDeleted listed id).units.get? j = (m.units.get? j).filter fun u => !(j == id && u.phase == .deleting) := by
  unfold dropIfDeleted
  split
  · next hd =>
    obtain ⟨u, hu, hp⟩ := hd
    rw [Table.get?_filter]
    by_cases hj : j = id
    · subst hj
      simp [hu, hp, Option.filter]
    · cases m.units.get? j <;> simp [hj, Option.filter]
  · next hd =>
    by_cases hj : j = id
    · subst hj
      cases hu : m.units.get? j with
      | none => rfl
      | some u =>
          have hp : u.phase ≠ .deleting := fun hp => hd ⟨u, hu, hp⟩
          simp [hp, Option.filter]
    · cases m.units.get? j <;> simp [hj, Option.filter]

theorem contains_retired_dropIfDeleted :
    (m.dropIfDeleted listed id).retired.contains j = true ↔
      m.retired.contains j = true ∨ j = id ∧ m.Deleting j ∧ listed.contains j = true := by
  unfold dropIfDeleted
  by_cases hd : m.Deleting id
  · rw [if_pos hd]
    by_cases hl : listed.contains id = true
    · simp only [hl, if_true, Table.contains_insert_iff]
      constructor
      · rintro (rfl | hr)
        · exact .inr ⟨rfl, hd, hl⟩
        · exact .inl hr
      · rintro (hr | ⟨rfl, -⟩)
        · exact .inr hr
        · exact .inl rfl
    · rw [if_neg hl]
      refine (or_iff_left ?_).symm
      rintro ⟨rfl, -, hj⟩
      exact hl hj
  · rw [if_neg hd]
    refine (or_iff_left ?_).symm
    rintro ⟨rfl, hj, -⟩
    exact hd hj

theorem deleting_dropIfDeleted (h : j ≠ id) : (m.dropIfDeleted listed id).Deleting j ↔ m.Deleting j := by
  rw [Deleting, get?_units_dropIfDeleted, Deleting]
  cases m.units.get? j <;> simp [h, Option.filter]

theorem get?_units_foldl_dropIfDeleted :
    (order.foldl (dropIfDeleted listed) m).units.get? j =
      (m.units.get? j).filter fun u => !(order.contains j && u.phase == .deleting) := by
  induction order generalizing m with
  | nil => cases h : m.units.get? j <;> simp [h, Option.filter]
  | cons id rest ih =>
      rw [List.foldl_cons, ih, get?_units_dropIfDeleted, Option.filter_filter, List.contains_cons]
      congr
      funext u
      cases j == id <;> cases rest.contains j <;> cases u.phase == .deleting <;> rfl

theorem contains_retired_foldl_dropIfDeleted (hn : order.Nodup) :
    (order.foldl (dropIfDeleted listed) m).retired.contains j = true ↔
      m.retired.contains j = true ∨ j ∈ order ∧ m.Deleting j ∧ listed.contains j = true := by
  induction order generalizing m with
  | nil => simp
  | cons id rest ih =>
      rw [List.nodup_cons] at hn
      rw [List.foldl_cons, ih hn.2, contains_retired_dropIfDeleted, List.mem_cons]
      by_cases hj : j = id
      · subst hj
        simp [hn.1]
      · simp [hj, deleting_dropIfDeleted hj]

theorem foldl_dropIfDeleted_eq :
    order.foldl (dropIfDeleted listed) m =
      { m with
        units := (order.foldl (dropIfDeleted listed) m).units
        retired := (order.foldl (dropIfDeleted listed) m).retired } := by
  induction order generalizing m with
  | nil => rfl
  | cons id rest ih =>
      rw [List.foldl_cons, ih, dropIfDeleted]
      split <;> rfl

/-- The pass that drops the deleted units may take the tracked ones in any order. -/
theorem foldl_dropIfDeleted_eq_dropDeleted (h : order.Perm m.units.keys) :
    order.foldl (dropIfDeleted listed) m = m.dropDeleted listed := by
  have ho : ∀ j u, m.units.get? j = some u → j ∈ order := fun j u hu =>
    h.mem_iff.mpr (Table.mem_keys_iff.mpr (Table.contains_iff.mpr ⟨u, hu⟩))
  rw [foldl_dropIfDeleted_eq, dropDeleted]
  congr
  · refine Table.ext_get? fun j => ?_
    rw [get?_units_foldl_dropIfDeleted, Table.get?_filter]
    cases hj : m.units.get? j with
    | none => rfl
    | some u => simp [Option.filter, ho j u hj, bne]
  · refine Table.ext_contains fun j => ?_
    rw [contains_retired_foldl_dropIfDeleted (h.nodup_iff.mpr m.units.keys_nodup), Table.contains_foldl_insert_unit,
      Table.mem_keys_iff, Table.contains_filter_iff]
    simp only [Deleting, beq_iff_eq]
    constructor
    · rintro (hr | ⟨-, hd, hl⟩)
      · exact .inl hr
      · exact .inr ⟨hd, hl⟩
    · rintro (hr | ⟨hd, hl⟩)
      · exact .inl hr
      · obtain ⟨u, hu, -⟩ := id hd
        exact .inr ⟨ho j u hu, hd, hl⟩

/-- The manager comes of a reconciliation that looks at the listed units, and then twice at the tracked ones, each time in
any order. -/
inductive SweepsTo (m : Manager) (s : Snapshot) : Manager → Prop
  | sweep {listed : List (String × UnitStatus)} {marked dropped : List String} :
      listed.Perm (s.unitsOf m.application).entries →
      marked.Perm ((m.forget (s.unitsOf m.application)).observeAll s listed).units.keys →
      dropped.Perm
        (marked.foldl (markIfMissing (s.unitsOf m.application))
          ((m.forget (s.unitsOf m.application)).observeAll s listed)).units.keys →
      SweepsTo m s
        (dropped.foldl (dropIfDeleted (s.unitsOf m.application))
          (marked.foldl (markIfMissing (s.unitsOf m.application))
            ((m.forget (s.unitsOf m.application)).observeAll s listed)))

theorem sweepsTo_iff : m.SweepsTo s t ↔ t = m.reconciled s := by
  constructor
  · rintro ⟨hl, hm, hd⟩
    rw [foldl_dropIfDeleted_eq_dropDeleted hd, foldl_markIfMissing_eq_markMissing hm]
    exact reconciledBy_eq_reconciled hl
  · rintro rfl
    have h := SweepsTo.sweep (m := m) (s := s) (.refl _) (.refl _) (.refl _)
    rwa [foldl_dropIfDeleted_eq_dropDeleted (.refl _), foldl_markIfMissing_eq_markMissing (.refl _)] at h

/-! ## The outcome -/

/-- A unit that stays, or is taken up. -/
def Remains (m : Manager) (s : Snapshot) (id : String) : Prop :=
  (∃ u, m.unit? id = some u ∧ u.phase ≠ .deleting) ∨
    (m.unit? id = none ∧ m.retired.contains id = false ∧ ∃ st, s.unit? m.application id = some st ∧ st.isReady = true)

/-- What a reconciliation with the snapshot has made of a manager, unit by unit. -/
structure Outcome (m : Manager) (s : Snapshot) (t : Manager) : Prop where
  tracked_iff : ∀ id, t.units.contains id = true ↔ s.lists m.application id = true ∧ m.Remains s id
  status_eq : ∀ id w, t.unit? id = some w → s.unit? m.application id = some w.status
  /-- A name that is known is kept, and so is the phase unless the unit has become ready. -/
  kept : ∀ id u w, m.unit? id = some u → t.unit? id = some w →
    w.externalId = u.externalId ∧ (w.identity = if u.isResolved then u.identity else (m.source.resolve s w.status).getD "") ∧
      w.phase = if u.phase = .running ∨ w.status.isReady = true then .running else .creating
  taken : ∀ id w, m.unit? id = none → t.unit? id = some w →
    w.externalId = id ∧ w.identity = (m.source.resolve s w.status).getD "" ∧ w.phase = .running
  retired_iff : ∀ id, t.retired.contains id = true ↔
    s.lists m.application id = true ∧ (m.retired.contains id = true ∨ m.Deleting id)
  unchanged : t = { m with units := t.units, retired := t.retired }

theorem exists_observed_iff {st : UnitStatus} (hst : s.unit? m.application id = some st) :
    (∃ w, m.observed s id st = some w ∧ w.phase ≠ .deleting) ↔ m.Remains s id := by
  unfold observed Remains unit?
  cases m.units.get? id with
  | some u => simp [TrackedUnit.phase_observe_eq_deleting_iff, TrackedUnit.phase_resolve]
  | none => cases hr : m.retired.contains id <;> cases hy : st.isReady <;> simp [hst, hy]

theorem phase_observe_resolve {st : UnitStatus} {name : Option String} (h : u.phase ≠ .deleting) :
    ((u.resolve name).observe st).phase = if u.phase = .running ∨ st.isReady = true then .running else .creating := by
  rw [TrackedUnit.observe, TrackedUnit.phase_resolve]
  cases hp : u.phase with
  | creating => cases st.isReady <;> rfl
  | running => rfl
  | deleting => exact absurd hp h

theorem outcome_reconciled (m : Manager) (s : Snapshot) : m.Outcome s (m.reconciled s) where
  tracked_iff id := by
    rw [Table.contains_iff, Snapshot.lists, Table.contains_iff]
    simp only [get?_units_reconciled, Option.bind_eq_some_iff, Option.filter_eq_some_iff, bne_iff_ne]
    constructor
    · rintro ⟨w, st, hst, hw⟩
      exact ⟨⟨st, hst⟩, (exists_observed_iff hst).mp ⟨w, hw⟩⟩
    · rintro ⟨⟨st, hst⟩, hr⟩
      obtain ⟨w, hw⟩ := (exists_observed_iff hst).mpr hr
      exact ⟨w, st, hst, hw⟩
  status_eq id w hw := by
    obtain ⟨st, hst, -, ⟨u, -, rfl⟩ | ⟨-, rfl⟩⟩ := reconciled_eq_some hw <;> exact hst
  kept id u w hu hw := by
    obtain ⟨st, -, hp, ⟨x, hx, rfl⟩ | ⟨hn, -⟩⟩ := reconciled_eq_some hw
    · cases hx.symm.trans hu
      rw [ne_eq, TrackedUnit.phase_observe_eq_deleting_iff, TrackedUnit.phase_resolve] at hp
      exact ⟨TrackedUnit.externalId_resolve u _, TrackedUnit.identity_resolve u _, phase_observe_resolve hp⟩
    · cases hn.symm.trans hu
  taken id w hn hw := by
    obtain ⟨st, -, -, ⟨x, hx, -⟩ | ⟨-, rfl⟩⟩ := reconciled_eq_some hw
    · cases hx.symm.trans hn
    · exact ⟨rfl, rfl, rfl⟩
  retired_iff _ := contains_retired_reconciled
  unchanged := reconciled_eq

namespace Outcome

variable {t' : Manager}

theorem eq_of_unit? {w' : TrackedUnit} (h : m.Outcome s t) (h' : m.Outcome s t') (hw : t.unit? id = some w)
    (hw' : t'.unit? id = some w') : w = w' := by
  have hs : w.status = w'.status := Option.some.inj ((h.status_eq id w hw).symm.trans (h'.status_eq id w' hw'))
  obtain ⟨he, hi, hp⟩ : w.externalId = w'.externalId ∧ w.identity = w'.identity ∧ w.phase = w'.phase := by
    cases hu : m.unit? id with
    | none =>
        obtain ⟨he, hi, hp⟩ := h.taken id w hu hw
        obtain ⟨he', hi', hp'⟩ := h'.taken id w' hu hw'
        exact ⟨he.trans he'.symm, by rw [hi, hi', hs], hp.trans hp'.symm⟩
    | some u =>
        obtain ⟨he, hi, hp⟩ := h.kept id u w hu hw
        obtain ⟨he', hi', hp'⟩ := h'.kept id u w' hu hw'
        exact ⟨he.trans he'.symm, by rw [hi, hi', hs], by rw [hp, hp', hs]⟩
  cases w
  cases w'
  cases hs
  cases he
  cases hi
  cases hp
  rfl

/-- What is told of an outcome leaves nothing open. -/
theorem unique (h : m.Outcome s t) (h' : m.Outcome s t') : t = t' := by
  have hu : t.units = t'.units := by
    refine Table.ext_get? fun id => ?_
    have hc : t.units.contains id = true ↔ t'.units.contains id = true := (h.tracked_iff id).trans (h'.tracked_iff id).symm
    cases hw : t.units.get? id with
    | none =>
        rw [← Table.contains_eq_false_iff] at hw
        rw [eq_comm, ← Table.contains_eq_false_iff, Bool.eq_false_iff, ne_eq, ← hc, hw]
        exact Bool.false_ne_true
    | some w =>
        obtain ⟨w', hw'⟩ := Table.contains_iff.mp (hc.mp (Table.contains_iff.mpr ⟨w, hw⟩))
        rw [hw', eq_of_unit? h h' hw hw']
  have hr : t.retired = t'.retired :=
    Table.ext_contains fun id => (h.retired_iff id).trans (h'.retired_iff id).symm
  rw [h.unchanged, h'.unchanged, hu, hr]

end Outcome

/-- When the fleet has shown the snapshot, the reconciliation succeeds and leaves one manager, whatever the orders in which it
goes through the units. That manager is the only one of which this outcome can be told. -/
theorem reconcile_outcome (m : Manager) (s : Snapshot) :
    ∃ m', (∀ t v, m.reconcile.Ends [.answered () (.status [m.application]) s] t v ↔ t = m' ∧ v = some (.ok ())) ∧
      (∀ t, m.SweepsTo s t ↔ t = m') ∧ ∀ t, m.Outcome s t ↔ t = m' := by
  refine ⟨m.reconciled s, fun t v => (ends_reconcile.mpr .seen).iff_eq, fun t => sweepsTo_iff, fun t => ⟨fun h => ?_, ?_⟩⟩
  · exact h.unique (outcome_reconciled m s)
  · rintro rfl
    exact outcome_reconciled m s

end NodeGroups.Manager
