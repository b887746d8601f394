import NodeGroups.Proofs.Group.Bounds
import NodeGroups.Proofs.Group.Retries
import NodeGroups.Proofs.Manager.Staying

/-!
# What the minimum protects

A deletion stops when the target is at the minimum, and the target moves only when the fleet has accepted a removal. So the
minimum protects the units whose removal has not been accepted. A unit whose removal has failed is to go away all the
same, and counts among them. Main statement: `min_le_unremoved`.
-/

namespace NodeGroups
open Operation

namespace Manager

variable {m : Manager} {id : String} {u : TrackedUnit}

/-- The tracked units that are to stay. -/
def staying (m : Manager) : Table TrackedUnit := m.units.filter fun _ u => u.phase != .deleting

/-- The tracked units that are to stay, and those that are to go away though no removal of them has been accepted. -/
def unremoved (m : Manager) (es : List (Event Unit)) : Table TrackedUnit :=
  m.units.filter fun id u => u.phase != .deleting || !(accepted es).contains id

theorem size_mark (hu : m.units.get? id = some u) : (m.mark id u).size = m.size := by
  have hk (j : String) : j ∈ (m.mark id u).units.keys ↔ j ∈ m.units.keys := by
    rw [Table.mem_keys_iff, Table.mem_keys_iff, Table.contains, get?_units_mark, Table.contains]
    by_cases hj : j = id
    · simp [hj, hu]
    · simp [hj]
  have hp := (List.perm_ext_iff_of_nodup (Table.keys_nodup _) (Table.keys_nodup _)).mpr hk
  simpa [size] using hp.length_eq

theorem size_le_unremoved (m : Manager) (es : List (Event Unit)) :
    m.size ≤ (m.unremoved es).size + (accepted es).length := by
  -- a tracked unit that does not count is among the accepted ones, and no unit is tracked twice
  have hk : m.units.keys ⊆ (m.unremoved es).keys ++ accepted es := by
    intro j hj
    rw [List.mem_append]
    by_cases ha : j ∈ accepted es
    · exact .inr ha
    · obtain ⟨w, hw⟩ := Table.contains_iff.mp (Table.mem_keys_iff.mp hj)
      have hf : (m.unremoved es).contains j = true := Table.contains_filter_iff.mpr ⟨w, hw, by simp [ha]⟩
      exact .inl (Table.mem_keys_iff.mpr hf)
  simpa [size] using (List.subperm_of_subset m.units.keys_nodup hk).length_le

theorem unremoved_eq_staying {es : List (Event Unit)} (h : ∀ id, m.Deleting id → id ∈ accepted es) :
    m.unremoved es = m.staying := by
  refine Table.ext_get? fun j => ?_
  rw [unremoved, staying, Table.get?_filter, Table.get?_filter]
  cases hj : m.units.get? j with
  | none => rfl
  | some w =>
      by_cases hp : w.phase = .deleting
      · simp [Option.filter, hp, h j ⟨w, hj, hp⟩]
      · simp [Option.filter, hp]

end Manager

namespace Group

variable {g g' start : Group} {steps : List Turn}

theorem Deletes.size_eq {nodes : List String} {es : List (Event Unit)} {v : Option (Except Provider.Error Unit)}
    (h : Deletes g nodes es g' v) : g'.size = g.size := by
  induction h with
  | done | tooSmall | unknown => rfl
  | refused _ hb => exact Manager.size_mark (Manager.backing?_eq_some hb).1
  | removed _ hb _ ih => exact ih.trans (Manager.size_mark (Manager.backing?_eq_some hb).1)

/-- Deletions keep every unit tracked, and lower the target by the removals that have been accepted, down to the minimum. -/
theorem counts_of_deletions (h : Session act start steps g) (hd : ∀ d ∈ steps, ∃ nodes, d.command = Command.delete nodes) :
    g.size = start.size ∧ g.target + (accepted (eventsOf steps)).length = start.target ∧
      min start.minSize start.target ≤ g.target := by
  induction h with
  | idle => exact ⟨rfl, rfl, Nat.min_le_right ..⟩
  | @step steps s t c es v h he ih =>
      rw [List.forall_mem_append, List.forall_mem_singleton] at hd
      obtain ⟨hs, ht, hm⟩ := ih hd.1
      obtain ⟨nodes, rfl⟩ := hd.2
      have hdel := ends_deleteNodes.mp he
      have hc := hdel.counts.1
      have hl := hdel.le_target.1
      rw [(bounds_of_session h).1] at hl
      refine ⟨hdel.size_eq.trans hs, ?_, by omega⟩
      rw [eventsOf, List.flatMap_append, List.flatMap_singleton, accepted_append, List.length_append, ← eventsOf]
      dsimp only
      omega

/-- After a group has been set up or refreshed with at least the minimum of units, only nodes are deleted, any number of
times. Then the units whose removal the fleet has not accepted are never fewer than the minimum. Those that are to stay are
not either, as long as the fleet has accepted the removal of every other. -/
theorem min_le_unremoved (h₀ : Settled start) (hm : start.minSize ≤ start.size) (h : Session act start steps g)
    (hd : ∀ d ∈ steps, ∃ nodes, d.command = Command.delete nodes) :
    start.minSize ≤ (g.manager.unremoved (eventsOf steps)).size ∧
      ((∀ id, g.manager.Deleting id → id ∈ accepted (eventsOf steps)) → start.minSize ≤ g.manager.staying.size) := by
  obtain ⟨hs, ht, hl⟩ := counts_of_deletions h hd
  have hu : g.size ≤ (g.manager.unremoved (eventsOf steps)).size + (accepted (eventsOf steps)).length :=
    g.manager.size_le_unremoved (eventsOf steps)
  rw [h₀.target_eq] at ht hl
  have hmin : start.minSize ≤ (g.manager.unremoved (eventsOf steps)).size := by omega
  refine ⟨hmin, fun ha => ?_⟩
  rwa [← Manager.unremoved_eq_staying ha]

/-- A group of the two units, one of which it must keep. The fleet refuses to remove the first, and then removes the
second. -/
def evading : List Turn × Group :=
  play act Fleet.Script.one
    { destroyUnits := [{ outcome := some (.error (.decode "no JSON")) }, { outcome := some (.ok []) }] }
    (ofManager ⟨1, 5, "m", "app"⟩ (.ofSnapshot .hostname "m" "app" twoUnits)) [.delete ["n0"], .delete ["n1"]]

theorem deletions_evading : ∀ d ∈ evading.1, ∃ nodes, d.command = Command.delete nodes := by
  intro d hd
  have hc := command_mem_of_mem_play hd
  simp only [List.mem_cons, List.not_mem_nil, or_false] at hc
  rcases hc with hc | hc <;> exact ⟨_, hc⟩

theorem min_le_unremoved_evading :
    (evading.2.manager.unremoved (eventsOf evading.1)).keys = ["app/0"] ∧
      1 ≤ (evading.2.manager.unremoved (eventsOf evading.1)).size := by
  have h : Session act _ evading.1 evading.2 := session_play ..
  exact ⟨by decide, (min_le_unremoved (.ofManager _ _) (by decide) h deletions_evading).1⟩

/-- Both units are to go away, though one must stay. -/
theorem staying_lt_min_evading : ¬ ∀ (start g : Group) (steps : List Turn), Settled start →
    start.minSize ≤ start.size → Session act start steps g → (∀ d ∈ steps, ∃ nodes, d.command = .delete nodes) →
      start.minSize ≤ g.manager.staying.size := by
  intro h
  have hs := h _ _ evading.1 (.ofManager ⟨1, 5, "m", "app"⟩ (.ofSnapshot .hostname "m" "app" twoUnits)) (by decide)
    (session_play ..) deletions_evading
  exact absurd hs (by decide)

end Group
end NodeGroups
