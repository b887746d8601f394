import NodeGroups.Proofs.Group.Registered
import NodeGroups.Proofs.Manager.Comeback

/-!
# Bounds of the target

A refresh sets the target to the size, wherever that is. Every other operation keeps the target within the bounds of the
group, or moves it towards them. Main statement: `target_mem_bounds`, for any session of a group.
-/

namespace NodeGroups.Group
open Operation

variable {g g' : Group} {es : List (Event Unit)} {v : Option (Except Provider.Error Unit)}

/-! ## One operation -/

theorem Increases.target_le {delta : Nat} (h : Increases g delta es g' v) :
    g.target ≤ g'.target ∧ g'.target ≤ max g.maxSize g.target := by
  cases h with
  | invalid | tooLarge | failed => exact ⟨Nat.le_refl _, Nat.le_max_right ..⟩
  | grown _ ha => exact ⟨Nat.le_add_right .., Nat.le_trans ha.2.1 (Nat.le_max_left ..)⟩

theorem Deletes.le_target {nodes : List String} (h : Deletes g nodes es g' v) :
    min g.minSize g.target ≤ g'.target ∧ g'.target ≤ g.target := by
  induction h with
  | done | tooSmall | unknown | refused => exact ⟨Nat.min_le_right .., Nat.le_refl _⟩
  | removed hg _ _ ih =>
      dsimp only at ih
      omega

theorem Decreases.le_target {delta : Nat} (h : Decreases g delta es g' v) :
    min g.minSize g.target ≤ g'.target ∧ g'.target ≤ g.target := by
  cases h with
  | invalid | tooSmall | registered => exact ⟨Nat.min_le_right .., Nat.le_refl _⟩
  | lowered _ _ hm => exact ⟨Nat.le_trans (Nat.min_le_left ..) hm, Nat.sub_le ..⟩

theorem Refreshes.target_eq (h : Refreshes g es g' v) :
    if v = some (.ok ()) then g'.target = g'.size else g' = g := by
  cases h with
  | @failed e => cases e <;> exact rfl
  | renewed => exact rfl

/-! ## Sessions -/

def Renews (d : Turn) : Prop := d.command = .refresh ∧ d.value = some (.ok ())

instance (d : Turn) : Decidable (Renews d) := inferInstanceAs (Decidable (_ ∧ _))

/-- The size after the latest refresh that has succeeded, or the one at the start if none has. -/
def renewedSize (size : Nat) (steps : List Turn) : Nat :=
  steps.foldl (fun n d => if Renews d then d.after.size else n) size

theorem renewedSize_concat {size : Nat} {steps : List Turn} {d : Turn} :
    renewedSize size (steps ++ [d]) = if Renews d then d.after.size else renewedSize size steps := by
  simp [renewedSize, List.foldl_append]

theorem target_step {d : Turn} (h : (act d.command d.before).Ends d.events d.after d.value) :
    if Renews d then d.after.target = d.after.size
    else min d.before.minSize d.before.target ≤ d.after.target ∧
      d.after.target ≤ max d.before.maxSize d.before.target := by
  obtain ⟨c, g, es, g', v⟩ := d
  cases c with
  | increase delta =>
      obtain ⟨hl, hu⟩ := (ends_increaseSize.mp h).target_le
      rw [if_neg fun hr => nomatch hr.1]
      exact ⟨Nat.le_trans (Nat.min_le_right ..) hl, hu⟩
  | delete nodes =>
      obtain ⟨hl, hu⟩ := (ends_deleteNodes.mp h).le_target
      rw [if_neg fun hr => nomatch hr.1]
      exact ⟨hl, Nat.le_trans hu (Nat.le_max_right ..)⟩
  | decrease delta =>
      obtain ⟨hl, hu⟩ := (ends_decreaseTarget.mp h).le_target
      rw [if_neg fun hr => nomatch hr.1]
      exact ⟨hl, Nat.le_trans hu (Nat.le_max_right ..)⟩
  | refresh =>
      have ht := (ends_refresh.mp h).target_eq
      by_cases hv : v = some (.ok ())
      · rw [if_pos hv] at ht
        rwa [if_pos ⟨rfl, hv⟩]
      · rw [if_neg hv] at ht
        rw [if_neg fun hr => hv hr.2]
        exact ht ▸ ⟨Nat.min_le_right .., Nat.le_max_right ..⟩

/-- Whatever the fleet makes of the operations, the target is not below the minimum and not above the maximum, unless the
size at the latest refresh or at the start was, and then not beyond that size. -/
theorem target_mem_bounds {spec : Spec} {m : Manager} {steps : List Turn} (h : Session act (ofManager spec m) steps g) :
    min spec.minSize (renewedSize m.size steps) ≤ g.target ∧
      g.target ≤ max spec.maxSize (renewedSize m.size steps) := by
  induction h with
  | idle => exact ⟨Nat.min_le_right .., Nat.le_max_right ..⟩
  | @step steps g g' c es v h he ih =>
      have ht := target_step (d := ⟨c, g, es, g', v⟩) he
      obtain ⟨hmin, hmax⟩ := bounds_of_session h
      rw [renewedSize_concat]
      by_cases hr : Renews ⟨c, g, es, g', v⟩
      · rw [if_pos hr] at ht ⊢
        rw [← ht]
        exact ⟨Nat.min_le_right .., Nat.le_max_right ..⟩
      · rw [if_neg hr] at ht ⊢
        simp only [hmin, hmax, ofManager] at ht
        omega

/-- A group of one unit, which is found to be of two. No more are added, one is removed, and the next refresh fails. -/
def outgrown : List Turn × Group :=
  play act Fleet.Script.one
    { status := [{ outcome := some (.ok twoUnits) }], destroyUnits := [{ outcome := some (.ok []) }] }
    (ofManager ⟨1, 1, "m", "app"⟩ (.ofSnapshot .hostname "m" "app" Manager.oneUnit))
    [.refresh, .increase 1, .delete ["n0"], .refresh]

theorem target_mem_bounds_outgrown :
    renewedSize 1 outgrown.1 = 2 ∧ min 1 2 ≤ outgrown.2.target ∧ outgrown.2.target ≤ max 1 2 := by
  have hs : renewedSize 1 outgrown.1 = 2 := by decide
  have h : Session act _ outgrown.1 outgrown.2 := session_play ..
  exact ⟨hs, hs ▸ target_mem_bounds h⟩

end NodeGroups.Group
