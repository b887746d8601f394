import NodeGroups.Proofs.Manager.Listed
import NodeGroups.Proofs.Manager.Names

/-!
# The life of a unit

A unit comes in as one that is created or runs, goes forward through the phases, and is dropped by a reconciliation. Each
operation moves every unit along this way or leaves it where it is, also if a call fails or breaks it off. Main statement:
`lifecycle`.
-/

namespace NodeGroups
open Fleet (IdentitySource Snapshot UnitStatus)
open Operation

/-- The phases in the order in which a unit goes through them. -/
def Phase.rank : Phase → Nat
  | creating => 0
  | running => 1
  | deleting => 2

theorem Phase.rank_le_deleting : (p : Phase) → p.rank ≤ deleting.rank
  | creating | running | deleting => by decide

/-- A unit goes forward through the phases, and keeps its external id, and the name of its node once it has one. -/
structure TrackedUnit.Precedes (u w : TrackedUnit) : Prop where
  rank_le : u.phase.rank ≤ w.phase.rank
  identity_eq : u.isResolved = true → w.identity = u.identity
  externalId_eq : w.externalId = u.externalId

namespace TrackedUnit.Precedes

variable {u w x : TrackedUnit}

theorem refl (u : TrackedUnit) : u.Precedes u := ⟨le_rfl, fun _ => rfl, rfl⟩

theorem trans (h : u.Precedes w) (h' : w.Precedes x) : u.Precedes x where
  rank_le := h.rank_le.trans h'.rank_le
  identity_eq hr := by
    have hw : w.isResolved = true := by rwa [isResolved, h.identity_eq hr]
    rw [h'.identity_eq hw, h.identity_eq hr]
  externalId_eq := h'.externalId_eq.trans h.externalId_eq

theorem marked (u : TrackedUnit) : u.Precedes { u with phase := .deleting } :=
  ⟨u.phase.rank_le_deleting, fun _ => rfl, rfl⟩

theorem observed (u : TrackedUnit) (name : Option String) (status : UnitStatus) :
    u.Precedes ((u.resolve name).observe status) where
  rank_le := by
    unfold observe
    dsimp only
    split
    · next h =>
      rw [Bool.and_eq_true, decide_eq_true_eq, phase_resolve] at h
      rw [h.1]
      decide
    · rw [phase_resolve]
  identity_eq hr := (u.identity_resolve name).trans (if_pos hr)
  externalId_eq := u.externalId_resolve name

end TrackedUnit.Precedes

namespace Manager

variable {m m' : Manager} {id : String} {d : Turn}

/-- The step is a reconciliation that has succeeded with the snapshot. -/
def TakesOver (d : Turn) (s : Snapshot) : Prop :=
  d.command = .reconcile ∧ d.value = some (.ok ()) ∧ fetched d.events = [s]

/-- What a step may do to the unit of an id. -/
structure Evolves (d : Turn) (id : String) : Prop where
  precedes : ∀ u w, d.before.unit? id = some u → d.after.unit? id = some w → u.Precedes w
  dropped : ∀ u, d.before.unit? id = some u →
    (d.after.unit? id = none ↔
      ∃ s, TakesOver d s ∧ (u.phase = .deleting ∨ s.lists d.before.application id = false))
  taken : ∀ w, d.before.unit? id = none → d.after.unit? id = some w → w.externalId = id ∧ d.value = some (.ok ()) ∧
    ((∃ count, d.command = .scaleUp count ∧ w.phase = .creating ∧ w.identity = "") ∨
      (d.command = .reconcile ∧ w.phase = .running))
  marked : ¬ d.before.Deleting id → d.after.Deleting id →
    ∃ u, d.before.unit? id = some u ∧ u.isResolved = true ∧ d.command = .scaleDown u.identity ∧ asked d.events = [id]

theorem Evolves.of_unit?_eq (h : d.after.unit? id = d.before.unit? id) (hd : ∀ s, ¬ TakesOver d s) : Evolves d id where
  precedes u w hu hw := by
    rw [h, hu] at hw
    cases hw
    exact .refl u
  dropped u hu := by
    rw [h, hu]
    exact iff_of_false nofun fun ⟨s, hs, _⟩ => hd s hs
  taken w hu hw := by
    rw [h, hu] at hw
    cases hw
  marked hb ha := by
    obtain ⟨u, hu, hp⟩ := ha
    exact absurd ⟨u, h.symm.trans hu, hp⟩ hb

theorem evolves_scaleUp {count : Nat} {es : List (Event Unit)} {v : Option (Except Error Unit)}
    (h : ScalesUp m count es m' v) (id : String) : Evolves ⟨.scaleUp count, m, es, m', v⟩ id := by
  cases h with
  | zero | unseen | refused | lost => exact .of_unit?_eq rfl fun s hs => nomatch hs.1
  | @grown before names after =>
      have hg : (m.track (m.fresh before after).entries).unit? id = _ := get?_units_track
      cases hf : (m.fresh before after).get? id with
      | none =>
          rw [hf] at hg
          exact .of_unit?_eq hg fun s hs => nomatch hs.1
      | some st =>
          -- the unit has come up between the snapshots, and has not been tracked before
          obtain ⟨-, -, hn⟩ := contains_fresh_iff.mp (Table.contains_iff.mpr ⟨st, hf⟩)
          rw [hf] at hg
          exact {
            precedes := fun u w hu _ => nomatch hn.symm.trans hu
            dropped := fun u hu => nomatch hn.symm.trans hu
            taken := fun w _ hw => by
              cases hg.symm.trans hw
              exact ⟨rfl, rfl, .inl ⟨count, rfl, rfl, rfl⟩⟩
            marked := fun hb ha => absurd (deleting_track.mp ha) hb }

theorem evolves_scaleDown {node : String} {es : List (Event Unit)} {v : Option (Except Error Unit)}
    (h : ScalesDown m node es m' v) (id : String) : Evolves ⟨.scaleDown node, m, es, m', v⟩ id := by
  rcases h.asks_or_marks with ⟨-, -, rfl⟩ | ⟨j, u, hb, ha, rfl⟩
  · exact .of_unit?_eq rfl fun s hs => nomatch hs.1
  · have hg : (m.mark j u).unit? id = _ := get?_units_mark
    obtain ⟨hu, hr, rfl⟩ := backing?_eq_some hb
    by_cases hj : id = j
    · subst hj
      rw [if_pos rfl] at hg
      exact {
        precedes := fun w x hw hx => by
          cases hu.symm.trans hw
          cases hg.symm.trans hx
          exact .marked u
        dropped := fun _ _ => iff_of_false (by simp [hg]) fun ⟨s, hs, _⟩ => nomatch hs.1
        taken := fun _ hn _ => nomatch hu.symm.trans hn
        marked := fun _ _ => ⟨u, hu, hr, rfl, ha⟩ }
    · rw [if_neg hj] at hg
      exact .of_unit?_eq hg fun s hs => nomatch hs.1

theorem get?_units_reconciled_eq_none_iff {s : Snapshot} {u : TrackedUnit} (hu : m.units.get? id = some u) :
    (m.reconciled s).units.get? id = none ↔ u.phase = .deleting ∨ s.lists m.application id = false := by
  rw [get?_units_reconciled, Snapshot.lists, Table.contains_eq_false_iff]
  cases (s.unitsOf m.application).get? id with
  | none => simp
  | some st =>
      have ho := (u.resolve (m.source.resolve s st)).phase_observe_eq_deleting_iff st
      rw [TrackedUnit.phase_resolve] at ho
      simp [observed, hu, Option.filter, ho]

theorem evolves_reconcile {es : List (Event Unit)} {v : Option (Except Error Unit)}
    (h : Reconciles m es m' v) (id : String) : Evolves ⟨.reconcile, m, es, m', v⟩ id := by
  cases h with
  | @unseen e => exact .of_unit?_eq rfl fun s hs => by cases e <;> nomatch hs.2.1
  | @seen s =>
      exact {
        precedes := fun u w hu hw => by
          obtain ⟨st, -, -, ⟨x, hx, rfl⟩ | ⟨hn, -⟩⟩ := reconciled_eq_some hw
          · cases hx.symm.trans hu
            exact .observed u _ st
          · nomatch hn.symm.trans hu
        dropped := fun u hu => by
          refine (get?_units_reconciled_eq_none_iff hu).trans ⟨fun h => ⟨s, ⟨rfl, rfl, rfl⟩, h⟩, ?_⟩
          rintro ⟨t, ⟨-, -, ht⟩, h⟩
          cases ht
          exact h
        taken := fun w hn hw => by
          obtain ⟨st, -, -, ⟨x, hx, -⟩ | ⟨-, rfl⟩⟩ := reconciled_eq_some hw
          · nomatch hn.symm.trans hx
          · exact ⟨rfl, rfl, .inr ⟨rfl, rfl⟩⟩
        marked := fun _ ha => absurd ha not_deleting_reconciled }

theorem evolves_of_ends (h : (act d.command d.before).Ends d.events d.after d.value) (id : String) : Evolves d id := by
  obtain ⟨c, m, es, m', v⟩ := d
  cases c with
  | scaleUp count => exact evolves_scaleUp (ends_scaleUp.mp h) id
  | scaleDown node => exact evolves_scaleDown (ends_scaleDown.mp h) id
  | reconcile => exact evolves_reconcile (ends_reconcile.mp h) id

/-! ## External ids -/

/-- The units are tracked by their external ids. -/
def Keyed (m : Manager) : Prop := ∀ id u, m.unit? id = some u → u.externalId = id

theorem keyed_ofSnapshot {source : IdentitySource} {model app : String} {s : Snapshot} :
    (ofSnapshot source model app s).Keyed := by
  intro id u hu
  simp only [unit?, ofSnapshot, Table.get?_map, Option.map_eq_some_iff] at hu
  obtain ⟨st, -, rfl⟩ := hu
  rfl

/-- The external id of a unit that stays tracked does not change, and a new unit is tracked by its own. -/
theorem Keyed.of_evolves (h : d.before.Keyed) (hd : ∀ id, Evolves d id) : d.after.Keyed := by
  intro id w hw
  cases hu : d.before.unit? id with
  | none => exact ((hd id).taken w hu hw).1
  | some u => exact ((hd id).precedes u w hu hw).externalId_eq.trans (h id u hu)

/-- A manager goes by the ids under which it tracks units. If these are their external ids, it asks for removals by them,
misses the units whose external ids are not listed, and lists the external ids of its units. -/
theorem Keyed.goes_by_externalId (h : m.Keyed) :
    (∀ c es m' v, (act c m).Ends es m' v → ∀ id ∈ asked es, ∃ u, m.unit? id = some u ∧ u.externalId = id) ∧
      (∀ listed, m.markMissing listed = { m with
        units := m.units.map fun _ u => if listed.contains u.externalId then u else { u with phase := .deleting } }) ∧
      m.units.keys = m.units.values.map (·.externalId) := by
  refine ⟨fun c es m' v he id ha => ?_, fun listed => ?_, ?_⟩
  · obtain ⟨node, u, -, hb⟩ := (mem_asked_iff_marks (d := ⟨c, m, es, m', v⟩) he).mp ha
    have hu := (backing?_eq_some hb).1
    exact ⟨u, hu, h id u hu⟩
  · have ht : (m.markMissing listed).units = m.units.map fun _ u =>
        if listed.contains u.externalId then u else { u with phase := .deleting } := by
      refine Table.ext_get? fun id => ?_
      rw [markMissing, Table.get?_map, Table.get?_map]
      cases hu : m.units.get? id with
      | none => rfl
      | some u =>
          rw [Option.map_some, Option.map_some, h id u hu]
    rw [← ht]
    rfl
  · rw [Table.keys, Table.values, List.map_map]
    exact List.map_congr_left fun e he => (h e.1 e.2 (Table.mem_entries_iff.mp he)).symm

/-! ## Sessions -/

theorem evolves_of_session {steps : List Turn} (h : Session act m steps m') : ∀ d ∈ steps, ∀ id, Evolves d id := by
  induction h with
  | idle => exact fun _ hd => absurd hd List.not_mem_nil
  | step _ he ih =>
      intro d hd id
      rcases List.mem_append.mp hd with hd | hd
      · exact ih d hd id
      · cases List.mem_singleton.mp hd
        exact evolves_of_ends he id

theorem exists_unit?_of_session {steps : List Turn} {u : TrackedUnit} (h : Session act m steps m')
    (hu : m.unit? id = some u) (ht : ∀ d ∈ steps, ∃ w, d.after.unit? id = some w) : ∃ w, m'.unit? id = some w := by
  cases h with
  | idle => exact ⟨u, hu⟩
  | step => exact ht _ (List.mem_append_right _ List.mem_cons_self)

theorem precedes_of_session {steps : List Turn} {u w : TrackedUnit} (h : Session act m steps m')
    (hu : m.unit? id = some u) (ht : ∀ d ∈ steps, ∃ x, d.after.unit? id = some x) (hw : m'.unit? id = some w) :
    u.Precedes w := by
  induction h generalizing w with
  | idle =>
      cases hu.symm.trans hw
      exact .refl u
  | step hs he ih =>
      have ht' := fun d hd => ht d (List.mem_append_left _ hd)
      obtain ⟨x, hx⟩ := exists_unit?_of_session hs hu ht'
      have hd := evolves_of_ends (d := ⟨_, _, _, _, _⟩) he id
      exact (ih ht' hx).trans (hd.precedes x w hx hw)

theorem Keyed.of_session {steps : List Turn} (h : m.Keyed) (hs : Session act m steps m') :
    m'.Keyed ∧ ∀ d ∈ steps, d.before.Keyed ∧ d.after.Keyed := by
  induction hs with
  | idle => exact ⟨h, fun _ hd => absurd hd List.not_mem_nil⟩
  | @step steps m' m'' c es v _ he ih =>
      have ha : m''.Keyed := ih.1.of_evolves (d := ⟨c, m', es, m'', v⟩) (evolves_of_ends he)
      exact ⟨ha, List.forall_mem_append.mpr ⟨ih.2, List.forall_mem_singleton.mpr ⟨ih.1, ha⟩⟩⟩

/-- A session may start from any manager. Each of its steps moves each unit along its way, and so does the whole session
as long as the unit is tracked. Units that are tracked by their external ids, as they are after a start, stay so. -/
theorem lifecycle {steps : List Turn} (h : Session act m steps m') :
    (∀ d ∈ steps, ∀ id, Evolves d id) ∧
      (∀ id u w, m.unit? id = some u → m'.unit? id = some w →
        (∀ d ∈ steps, ∃ x, d.after.unit? id = some x) → u.Precedes w) ∧
      (m.Keyed → m'.Keyed ∧ ∀ d ∈ steps, d.before.Keyed ∧ d.after.Keyed) ∧
      ∀ source model app s, (ofSnapshot source model app s).Keyed :=
  ⟨evolves_of_session h, fun _ _ _ hu hw ht => precedes_of_session h hu ht hw, fun hk => hk.of_session h,
    fun _ _ _ _ => keyed_ofSnapshot⟩

def twoNodes : Manager := .ofSnapshot .hostname "m" "app" (listing [("app/0", "n0"), ("app/1", "n1")])

/-- The fleet refuses to remove the second of two units, which is to go away all the same. -/
def removingSecond : List Turn × Manager :=
  play act Fleet.Script.one { destroyUnits := [{ outcome := some (.error (.decode "no JSON")) }] } twoNodes [.scaleDown "n1"]

theorem lifecycle_removingSecond :
    (∀ d ∈ removingSecond.1, ∀ id, Evolves d id) ∧
      ∃ u w, twoNodes.unit? "app/1" = some u ∧ removingSecond.2.unit? "app/1" = some w ∧ w.phase = .deleting ∧
        w.externalId = "app/1" ∧ u.Precedes w := by
  have h : Session act twoNodes removingSecond.1 removingSecond.2 := session_play ..
  obtain ⟨hd, hp, hk, hs⟩ := lifecycle h
  refine ⟨hd, _, _, rfl, rfl, rfl, (hk (hs _ _ _ _)).1 "app/1" _ rfl, hp "app/1" _ _ rfl rfl fun d hd => ?_⟩
  cases List.mem_singleton.mp hd
  exact ⟨_, rfl⟩

end Manager
end NodeGroups
