import NodeGroups.Fleet.Script
import NodeGroups.Proofs.Group.Ending
import NodeGroups.Proofs.Manager.Lookup

/-!
# Targets and registered nodes

A removal lowers the target by one for each request that the fleet accepts, and the number of registered nodes by one
for each unit that is marked. The two differ where a removal is accepted of a unit that is already to go away. Main
statement: `registered_le_target_iff`, which says just when the target stays at or above the registered nodes.
-/

namespace NodeGroups
open Fleet (Snapshot)
open Operation

namespace Manager

variable {m : Manager} {id : String} {u : TrackedUnit}

/-- How many units have a node that is to stay. -/
def registered (m : Manager) : Nat := m.units.values.countP (·.isRegistered)

theorem registered_le_size (m : Manager) : m.registered ≤ m.size := by
  refine List.countP_le_length.trans ?_
  simp [Table.values, size, Table.size]

theorem registered_mark (hu : m.units.get? id = some u) (hr : u.isResolved = true) :
    (m.mark id u).registered + (if m.Deleting id then 0 else 1) = m.registered := by
  have h := m.units.countP_values_insert (·.isRegistered) id { u with phase := .deleting }
  rw [hu] at h
  have hd : m.Deleting id ↔ u.phase = .deleting := by simp [Deleting, hu]
  by_cases hp : u.phase = .deleting
  · simp_all [registered, mark, TrackedUnit.isRegistered]
  · simp_all [registered, mark, TrackedUnit.isRegistered, TrackedUnit.isResolved]

theorem registered_track {before after : Snapshot} :
    (m.track (m.fresh before after).entries).registered = m.registered := by
  refine Table.countP_values_foldl_insert (·.isRegistered)
    (fun id status => ({ externalId := id, phase := .creating, status } : TrackedUnit)) (fun _ _ => rfl)
    (m.fresh before after).keys_nodup fun e he => ?_
  have hc : (m.fresh before after).contains e.1 = true := Table.mem_keys_iff.mp (List.mem_map_of_mem he)
  exact (contains_fresh_iff.mp hc).2.2

theorem ScalesUp.quiet {count : Nat} {es : List (Event Unit)} {m' : Manager} {w : Option (Except Error Unit)}
    (h : ScalesUp m count es m' w) : m'.registered = m.registered ∧ accepted es = [] := by
  cases h with
  | zero | unseen | refused | lost => exact ⟨rfl, rfl⟩
  | grown =>
      refine ⟨registered_track, ?_⟩
      rw [accepted_append, accepted_map_warn]
      rfl

end Manager

namespace Group
open Manager (ScalesDown)

variable {g g' : Group}

theorem registered_eq (g : Group) : g.registered = g.manager.registered := rfl

/-- The units that are marked by these events and were not before. -/
def marked (g : Group) (es : List (Event Unit)) : Finset String :=
  (asked es).toFinset.filter fun id => ¬ g.manager.Deleting id

theorem card_marked_removal {id : String} {u : TrackedUnit} {es es' : List (Event Unit)} {t : Nat}
    (ha : asked es = [id] ++ asked es') :
    (g.marked es).card =
      (marked { g with manager := g.manager.mark id u, target := t } es').card +
        if g.manager.Deleting id then 0 else 1 := by
  unfold marked
  rw [ha, List.toFinset_append]
  simp only [Manager.deleting_mark]
  by_cases hd : g.manager.Deleting id
  · rw [if_pos hd, Nat.add_zero]
    congr 1
    ext j
    by_cases hj : j = id
    · simp [hj, hd]
    · simp [hj]
  · rw [if_neg hd, ← Finset.card_insert_of_notMem (a := id) (by simp)]
    congr 1
    ext j
    by_cases hj : j = id
    · simp [hj, hd]
    · simp [hj]

/-! ## One operation -/

/-- Removals lower the target by the requests accepted, and the registered nodes by the units marked. -/
theorem Deletes.counts {nodes : List String} {es : List (Event Unit)} {v : Option (Except Provider.Error Unit)}
    (h : Deletes g nodes es g' v) :
    g'.target + (accepted es).length = g.target ∧ g'.registered + (g.marked es).card = g.registered := by
  induction h with
  | done | tooSmall | unknown => exact ⟨rfl, rfl⟩
  | @refused g node rest id u e hg hb =>
      obtain ⟨hu, hr, -⟩ := Manager.backing?_eq_some hb
      have hm := Manager.registered_mark hu hr
      -- the unit is marked even though its removal was not accepted, so the target keeps more room than before
      have ha : asked [.failed () (.destroyUnits [id] false false) e] = [id] ++ asked ([] : List (Event Unit)) := rfl
      have hc := card_marked_removal (g := g) (u := u) (t := g.target) ha
      rw [accepted_failed, hc]
      refine ⟨rfl, ?_⟩
      simp only [registered_eq, marked, asked, List.flatMap_nil, List.toFinset_nil, Finset.filter_empty,
        Finset.card_empty]
      omega
  | @removed g g' node rest id u removals es v hg hb _ ih =>
      obtain ⟨hu, hr, -⟩ := Manager.backing?_eq_some hb
      have hm := Manager.registered_mark hu hr
      have ha := asked_removal () [id] removals (Manager.rejections removals) es
      have hc := card_marked_removal (g := g) (u := u) (t := g.target - 1) ha
      rw [accepted_removal, hc]
      simp only [registered_eq, List.length_append, List.length_singleton] at ih ⊢
      omega

theorem counts_of_accepted_nil {es : List (Event Unit)} (h : accepted es = []) (hg : g.registered ≤ g.target) :
    g.registered + (accepted es).length ≤ g.target + (g.marked es).card := by
  rw [h]
  exact hg.trans (Nat.le_add_right ..)

theorem registered_le_target_step {c : Command} {es : List (Event Unit)} {v : Option (Except Provider.Error Unit)}
    (h : (act c g).Ends es g' v) (hg : g.registered ≤ g.target) :
    g'.registered ≤ g'.target ↔ g.registered + (accepted es).length ≤ g.target + (g.marked es).card := by
  cases c with
  | increase delta =>
      cases ends_increaseSize.mp h with
      | invalid | tooLarge => exact iff_of_true hg (counts_of_accepted_nil rfl hg)
      | failed _ _ hs => exact iff_of_true hg (counts_of_accepted_nil hs.quiet.2 hg)
      | @grown _ m _ _ hs =>
          have hm : m.registered ≤ g.target + delta := by
            rw [hs.quiet.1]
            exact hg.trans (Nat.le_add_right ..)
          exact iff_of_true hm (counts_of_accepted_nil hs.quiet.2 hg)
  | delete nodes =>
      obtain ⟨ht, hr⟩ := (ends_deleteNodes.mp h).counts
      omega
  | decrease delta =>
      cases ends_decreaseTarget.mp h with
      | invalid | tooSmall | registered => exact iff_of_true hg (counts_of_accepted_nil rfl hg)
      | lowered _ _ _ hr => exact iff_of_true hr (counts_of_accepted_nil rfl hg)
  | refresh =>
      cases ends_refresh.mp h with
      | failed => exact iff_of_true hg (counts_of_accepted_nil (accepted_failed ..) hg)
      | renewed => exact iff_of_true (Manager.registered_le_size _) (counts_of_accepted_nil rfl hg)

/-! ## Sessions -/

theorem registered_le_target_ofManager (spec : Spec) (m : Manager) :
    (ofManager spec m).registered ≤ (ofManager spec m).target :=
  Manager.registered_le_size m

/-- A removal is accepted only of units that are not yet to go away, and once of each. -/
def RemovesOnce (d : Turn) : Prop :=
  (accepted d.events).Nodup ∧ ∀ id ∈ accepted d.events, ¬ d.before.manager.Deleting id

theorem accepted_subset_asked (es : List (Event Unit)) : accepted es ⊆ asked es := by
  intro id h
  obtain ⟨e, he, hid⟩ := List.mem_flatMap.mp h
  refine List.mem_flatMap.mpr ⟨e, he, ?_⟩
  unfold Event.accepted at hid
  split at hid
  · exact hid
  · cases hid

theorem RemovesOnce.length_le {d : Turn} (h : RemovesOnce d) :
    (accepted d.events).length ≤ (d.before.marked d.events).card := by
  rw [← List.toFinset_card_of_nodup h.1]
  refine Finset.card_le_card fun id hid => ?_
  rw [List.mem_toFinset] at hid
  exact Finset.mem_filter.mpr ⟨List.mem_toFinset.mpr (accepted_subset_asked _ hid), h.2 id hid⟩

/-- In a session the target stays at or above the registered nodes just if no operation has too many removals accepted
for the units it marks. -/
theorem registered_le_target_session {start : Group} {steps : List Turn} (h : Session act start steps g)
    (hs : start.registered ≤ start.target) :
    ((∀ d ∈ steps, d.after.registered ≤ d.after.target) ↔
      ∀ d ∈ steps,
        d.before.registered + (accepted d.events).length ≤ d.before.target + (d.before.marked d.events).card) ∧
    ((∀ d ∈ steps, d.after.registered ≤ d.after.target) → g.registered ≤ g.target) := by
  -- the second part is what the next operation needs to know of the state that it starts from
  induction h with
  | idle => exact ⟨by simp, fun _ => hs⟩
  | @step steps s t c es v _ he ih =>
      obtain ⟨hi, hl⟩ := ih
      simp only [List.forall_mem_append, List.forall_mem_singleton]
      refine ⟨?_, fun h => h.2⟩
      constructor
      · rintro ⟨ha, ht⟩
        exact ⟨hi.mp ha, (registered_le_target_step he (hl ha)).mp ht⟩
      · rintro ⟨ha, ht⟩
        exact ⟨hi.mpr ha, (registered_le_target_step he (hl (hi.mpr ha))).mpr ht⟩

theorem registered_le_target_of_removesOnce {start : Group} {steps : List Turn} (h : Session act start steps g)
    (hs : start.registered ≤ start.target) (hr : ∀ d ∈ steps, RemovesOnce d) : g.registered ≤ g.target := by
  induction h with
  | idle => exact hs
  | step _ he ih =>
      simp only [List.forall_mem_append, List.forall_mem_singleton] at hr
      have hg := ih hr.1
      exact (registered_le_target_step he hg).mpr (Nat.add_le_add hg hr.2.length_le)

/-- After every operation of a session the target is at least the number of registered nodes, just if no operation has
more removals accepted beyond the units it marks than the target was above that number. So it is if a removal is only
ever accepted of a unit that is not yet to go away. -/
theorem registered_le_target_iff {spec : Spec} {m : Manager} {steps : List Turn}
    (h : Session act (ofManager spec m) steps g) :
    ((∀ d ∈ steps, d.after.registered ≤ d.after.target) ↔
      ∀ d ∈ steps,
        d.before.registered + (accepted d.events).length ≤ d.before.target + (d.before.marked d.events).card) ∧
    ((∀ d ∈ steps, RemovesOnce d) → g.registered ≤ g.target) :=
  have hs := registered_le_target_ofManager spec m
  ⟨(registered_le_target_session h hs).1, registered_le_target_of_removesOnce h hs⟩

def twoUnits : Snapshot where
  applications := .ofList [("app", .ofList [
    ("app/0", { agent := { current := "idle" }, workload := { current := "active" }, machine := "0" }),
    ("app/1", { agent := { current := "idle" }, workload := { current := "active" }, machine := "1" })])]
  machines := [("0", { hostname := "n0" }), ("1", { hostname := "n1" })]

/-- A group of the two units, whose fleet accepts two removals. -/
def removing (nodes : List String) : List Turn × Group :=
  play act Fleet.Script.one { destroyUnits := [{ outcome := some (.ok []) }, { outcome := some (.ok []) }] }
    (ofManager ⟨0, 5, "m", "app"⟩ (.ofSnapshot .hostname "m" "app" twoUnits)) [.delete nodes]

theorem registered_le_target_removing :
    (removing ["n0", "n1"]).2.registered ≤ (removing ["n0", "n1"]).2.target := by
  have h : Session act _ (removing ["n0", "n1"]).1 (removing ["n0", "n1"]).2 := session_play ..
  refine (registered_le_target_iff h).2 ?_
  intro d hd
  obtain rfl := List.mem_singleton.mp hd
  exact ⟨by decide, by decide⟩

/-- A node that is named twice costs the target two units, though only one goes away. -/
theorem target_lt_registered_removing : ¬ ∀ (spec : Spec) (s : Snapshot) (steps : List Turn) (g : Group),
    Session act (ofManager spec (.ofSnapshot .hostname spec.model spec.application s)) steps g →
      g.registered ≤ g.target := by
  intro h
  have hr : (removing ["n0", "n0"]).2.registered ≤ (removing ["n0", "n0"]).2.target :=
    h ⟨0, 5, "m", "app"⟩ twoUnits _ _ (session_play ..)
  exact absurd hr (by decide)

end Group
end NodeGroups
