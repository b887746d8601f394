import Mathlib.Data.List.DropRight
import Mathlib.Data.List.Flatten
import NodeGroups.Proofs.Fleet.World
import NodeGroups.Proofs.Group.Bounds
import NodeGroups.Proofs.Manager.Staying

/-!
# Targets and live units

A group whose fleet does what it is asked knows which units are live. Main statement: `target_eq_card_live_iff`, that
the target is the number of live units just if no unit has been removed twice since the last refresh.
-/

namespace NodeGroups
open Fleet (IdentitySource Snapshot World)
open Operation

namespace Group
variable {g g' : Group} {app id : String} {removed : List String} {w w' : World} {es : List (Event Unit)}
  {v : Option (Except Provider.Error Unit)}

/-- What is true between a group and a fleet that does what it is asked. The fleet has accepted the removals since the
last refresh, and of each unit as often as it is listed. -/
structure Tracks (app : String) (g : Group) (removed : List String) (w : World) : Prop where
  application : g.manager.application = app
  live : ∀ id, id ∈ w.live ↔ g.manager.Staying id
  deleting : ∀ id, id ∈ removed ↔ g.manager.Deleting id
  known : ∀ id ∈ removed, id ∈ w.known
  dying : ∀ id ∈ w.dying, g.manager.Leaving id
  target : g.target + removed.length = w.live.card + removed.toFinset.card

namespace Tracks

theorem untracked (h : Tracks app g removed w) (hid : id ∉ w.known) : g.manager.units.get? id = none := by
  rw [Option.eq_none_iff_forall_ne_some]
  intro u hu
  rcases Manager.staying_or_deleting_iff.mpr ⟨u, hu⟩ with hs | hd
  · exact hid (World.mem_known.mpr (.inl ((h.live id).mpr hs)))
  · exact hid (h.known id ((h.deleting id).mpr hd))

theorem ofManager {spec : Spec} {source : IdentitySource} {model : String} {s : Snapshot} (hs : w.Shows app s)
    (hd : w.dying = ∅) : Tracks app (ofManager spec (.ofSnapshot source model app s)) [] w := by
  have hl : ∀ id, id ∈ w.live ↔ (Manager.ofSnapshot source model app s).Staying id := by
    intro id
    rw [Manager.staying_ofSnapshot, hs.lists_iff]
    simp [hd]
  have hn : ∀ id, ¬ (Manager.ofSnapshot source model app s).Deleting id := fun _ => Manager.not_deleting_ofSnapshot
  exact {
    application := rfl
    live := hl
    deleting := fun id => iff_of_false List.not_mem_nil (hn id)
    known := by simp
    dying := by simp [hd]
    target := Manager.size_eq_card hl hn }

theorem vanish (h : Tracks app g removed w) (ids : Finset String) : Tracks app g removed (w.vanish ids) where
  application := h.application
  live := h.live
  deleting := h.deleting
  known := by simpa using h.known
  dying := fun id hid => h.dying id (Finset.mem_sdiff.mp hid).1
  target := h.target

/-- The removal of a tracked unit is accepted, whether or not it was to go away already. -/
theorem remove {u : TrackedUnit} (h : Tracks app g removed w) (hu : g.manager.units.get? id = some u)
    (ht : 0 < g.target) :
    Tracks app { g with manager := g.manager.mark id u, target := g.target - 1 } (removed ++ [id]) (w.remove [id]) where
  application := h.application
  live := fun j => by simp [World.remove, h.live, Manager.staying_mark, and_comm]
  deleting := fun j => by simp [Manager.deleting_mark, h.deleting, or_comm]
  known := by
    intro j hj
    rw [World.known_remove, World.mem_known]
    rcases List.mem_append.mp hj with hj | hj
    · exact World.mem_known.mp (h.known j hj)
    · obtain rfl := List.mem_singleton.mp hj
      by_contra hn
      rw [h.untracked (mt World.mem_known.mp hn)] at hu
      cases hu
  dying := by
    intro j hj
    rcases Finset.mem_union.mp hj with hj | hj
    · exact (h.dying j hj).mark
    · obtain rfl : j = id := by simpa using (Finset.mem_inter.mp hj).2
      exact .inl (Manager.deleting_mark.mpr (.inl rfl))
  target := by
    have hc := h.target
    simp only [List.toFinset_append, List.toFinset_cons, List.toFinset_nil, insert_empty_eq, List.length_append,
      List.length_singleton, Finset.union_singleton]
    rcases Manager.staying_or_deleting_iff.mpr ⟨u, hu⟩ with hs | hd
    · have hl := World.card_live_remove ((h.live id).mpr hs)
      have hr : id ∉ removed.toFinset := by
        rw [List.mem_toFinset, h.deleting]
        exact hs.not_deleting
      rw [Finset.card_insert_of_notMem hr]
      omega
    · -- a unit that is removed again counts in the target once more, but not in the world
      have hl : id ∉ w.live := by
        rw [h.live]
        exact fun hs => hs.not_deleting hd
      have hr : id ∈ removed.toFinset := List.mem_toFinset.mpr ((h.deleting id).mpr hd)
      rw [World.live_remove_of_notMem hl, Finset.insert_eq_of_mem hr]
      omega

/-- Just the new units come up between two snapshots, whatever of the others goes meanwhile. -/
theorem contains_fresh_iff {before after : Snapshot} {new ids ids' : Finset String} (h : Tracks app g removed w)
    (hb : w.Shows app before) (hn : Disjoint new (w.vanish ids).known)
    (ha : (((w.vanish ids).grow new hn).vanish ids').Shows app after) :
    (g.manager.fresh before after).contains id = true ↔ id ∈ new := by
  obtain rfl := h.application
  rw [Manager.contains_fresh_iff, ha.lists_iff, ← Bool.not_eq_true, hb.lists_iff]
  constructor
  · rintro ⟨hl | hl, hb, -⟩
    · rcases Finset.mem_union.mp hl with hl | hl
      · exact absurd (.inl hl) hb
      · exact hl
    · exact absurd (.inr (Finset.mem_sdiff.mp (Finset.mem_sdiff.mp hl).1).1) hb
  · intro hid
    have hk : id ∉ w.known := by
      rw [← w.known_vanish ids]
      exact Finset.disjoint_left.mp hn hid
    have hnk := mt World.mem_known.mpr hk
    exact ⟨.inl (Finset.mem_union_right _ hid), fun hb => hnk (hb.imp_right .inl), h.untracked hk⟩

theorem grow {before after : Snapshot} {new ids ids' : Finset String} (h : Tracks app g removed w)
    (hb : w.Shows app before) (hn : Disjoint new (w.vanish ids).known)
    (ha : (((w.vanish ids).grow new hn).vanish ids').Shows app after) :
    Tracks app
      { g with manager := g.manager.track (g.manager.fresh before after).entries, target := g.target + new.card }
      removed (((w.vanish ids).grow new hn).vanish ids') := by
  obtain rfl := h.application
  have h₁ := h.vanish ids
  refine Tracks.vanish ?_ ids'
  exact {
    application := rfl
    live := fun id => by
      rw [Manager.staying_track, h.contains_fresh_iff hb hn ha, ← h.live]
      exact Finset.mem_union.trans or_comm
    deleting := fun id => by rw [Manager.deleting_track, h.deleting]
    known := fun id hid => World.mem_known_grow (h₁.known id hid)
    dying := fun id hid => (h₁.dying id hid).track (hb.lists_iff.mpr (.inr (Finset.mem_sdiff.mp hid).1))
    target := by rw [World.card_live_grow, Nat.add_right_comm, h₁.target, Nat.add_right_comm] }

theorem refresh {s : Snapshot} (h : Tracks app g removed w) (hs : w.Shows app s) :
    Tracks app { g with manager := g.manager.reconciled s, target := (g.manager.reconciled s).size } [] w := by
  obtain rfl := h.application
  have hd : ∀ id ∈ w.dying, (g.manager.reconciled s).Leaving id := fun id hid =>
    (h.dying id hid).reconciled (hs.lists_iff.mpr (.inr hid))
  have hl : ∀ id, id ∈ w.live ↔ (g.manager.reconciled s).Staying id := by
    intro id
    constructor
    · intro hid
      exact ((h.live id).mp hid).reconciled (hs.lists_iff.mpr (.inl hid))
    · intro hst
      rcases hs.lists_iff.mp hst.lists_of_reconciled with hid | hid
      · exact hid
      · exact absurd hst (hd id hid).not_staying
  have hn : ∀ id, ¬ (g.manager.reconciled s).Deleting id := fun _ => Manager.not_deleting_reconciled
  exact {
    application := Manager.application_reconciled
    live := hl
    deleting := fun id => iff_of_false List.not_mem_nil (hn id)
    known := by simp
    dying := hd
    target := Manager.size_eq_card hl hn }

/-! ## Operations -/

theorem deletes {nodes : List String} (hd : Deletes g nodes es g' v) (h : Tracks app g removed w)
    (hs : World.Serves app w es w') : Tracks app g' (removed ++ accepted es) w' := by
  induction hd generalizing removed w with
  | done | tooSmall | unknown =>
      cases hs with
      | nil =>
          rw [show accepted ([] : List (Event Unit)) = [] from rfl, List.append_nil]
          exact h
  | refused => exact absurd List.mem_cons_self hs.not_failed
  | @removed g g' node rest id u removals es v hg hb _ ih =>
      obtain ⟨hu, -, -⟩ := Manager.backing?_eq_some hb
      rw [accepted_removal, ← List.append_assoc]
      cases hs with
      | cons ids ha hs =>
          cases ha with
          | destroyUnits _ =>
              obtain ⟨w₁, h₁, h₂⟩ := World.Serves.split hs
              refine ih (h₁.of_warns (fun _ ids h => h.vanish ids) ?_) h₂
              exact (h.remove hu (Nat.zero_lt_of_lt hg)).vanish ids

theorem increases {delta : Nat} (hi : Increases g delta es g' v) (h : Tracks app g removed w)
    (hs : World.Serves app w es w') : Tracks app g' removed w' := by
  cases hi with
  | invalid | tooLarge =>
      cases hs with
      | nil => exact h
  | failed _ _ hu hv =>
      obtain ⟨r, e, he⟩ := hu.exists_failed hv
      exact absurd he hs.not_failed
  | grown hd _ hu =>
      obtain ⟨before, names, after, rfl, rfl⟩ := hu.ok hd
      obtain rfl := h.application
      obtain ⟨w₁, h₁, h₂⟩ := World.Serves.split hs
      refine h₂.of_warns (fun _ ids h => h.vanish ids) ?_
      -- the three calls, after each of which some units may go
      cases h₁ with
      | cons ids₁ hb h₁ =>
      cases h₁ with
      | cons ids₂ hg h₁ =>
      cases h₁ with
      | cons ids₃ ha h₁ =>
      cases h₁
      cases hb with
      | status hb =>
      cases hg with
      | addUnits hn hc =>
      cases ha with
      | status ha =>
      subst hc
      exact (h.grow hb hn ha).vanish ids₃

/-- What an operation leaves of the list of removals. -/
theorem step {c : Command} (he : (act c g).Ends es g' v) (hc : ∀ n, c ≠ .decrease n) (h : Tracks app g removed w)
    (hs : World.Serves app w es w') : Tracks app g' (if c = .refresh then [] else removed ++ accepted es) w' := by
  cases c with
  | increase delta =>
      have hi := ends_increaseSize.mp he
      have ha : accepted es = [] := by
        cases hi with
        | invalid | tooLarge => rfl
        | failed _ _ hu | grown _ _ hu => exact hu.quiet.2
      rw [if_neg nofun, ha, List.append_nil]
      exact increases hi h hs
  | delete nodes =>
      rw [if_neg nofun]
      exact deletes (ends_deleteNodes.mp he) h hs
  | decrease n => exact absurd rfl (hc n)
  | refresh =>
      rw [if_pos rfl]
      cases ends_refresh.mp he with
      | failed => exact absurd List.mem_cons_self hs.not_failed
      | renewed =>
          obtain rfl := h.application
          cases hs with
          | cons ids ha hs =>
              cases hs
              cases ha with
              | status ha => exact (h.refresh ha).vanish ids

theorem target_le (h : Tracks app g removed w) : g.target ≤ w.live.card := by
  have hc := h.target
  have hl := removed.toFinset_card_le
  omega

theorem target_eq_iff (h : Tracks app g removed w) : g.target = w.live.card ↔ removed.Nodup := by
  rw [← Multiset.coe_nodup, ← Multiset.toFinset_card_eq_card_iff_nodup, List.toFinset_coe, Multiset.coe_card]
  have hc := h.target
  omega

end Tracks

/-! ## Sessions -/

variable {steps : List Turn}

/-- The units whose removal has been accepted since the last refresh, in order and as often as it has been. -/
def removedSince (steps : List Turn) : List String :=
  accepted (eventsOf (steps.rtakeWhile (·.command ≠ .refresh)))

theorem removedSince_concat {d : Turn} :
    removedSince (steps ++ [d]) = if d.command = .refresh then [] else removedSince steps ++ accepted d.events := by
  unfold removedSince
  rw [List.rtakeWhile_concat]
  by_cases hd : d.command = .refresh
  · simp [hd, eventsOf, accepted]
  · simp [hd, eventsOf]

theorem removedSince_sublist (steps : List Turn) : (removedSince steps).Sublist (accepted (eventsOf steps)) :=
  ((List.rtakeWhile_suffix _ _).sublist.flatMap _).flatMap _

theorem Tracks.session {start : Group} {w₀ : World} (h : Session act start steps g) (ht : Tracks app start [] w₀)
    (hc : ∀ d ∈ steps, ∀ n, d.command ≠ .decrease n) (hw : World.Serves app w₀ (eventsOf steps) w) :
    Tracks app g (removedSince steps) w := by
  induction h generalizing w with
  | idle =>
      cases hw
      exact ht
  | step _ he ih =>
      simp only [List.forall_mem_append, List.forall_mem_singleton] at hc
      simp only [eventsOf, List.flatMap_append, List.flatMap_singleton] at hw
      obtain ⟨w₁, h₁, h₂⟩ := World.Serves.split hw
      rw [removedSince_concat]
      exact Tracks.step he hc.2 (ih hc.1 h₁) h₂

/-! ## Bounds -/

/-- The target keeps to the bounds or to where it was, downwards always and upwards as long as it counts the live
units. -/
theorem Tracks.target_step {c : Command} (he : (act c g).Ends es g' v) (hc : ∀ n, c ≠ .decrease n)
    (h : Tracks app g removed w) (hs : World.Serves app w es w') :
    min g.minSize g.target ≤ g'.target ∧ (removed.Nodup → g'.target ≤ max g.maxSize g.target) := by
  have h' := Tracks.step he hc h hs
  cases c with
  | increase delta =>
      obtain ⟨hl, hu⟩ := (ends_increaseSize.mp he).target_le
      exact ⟨(Nat.min_le_right ..).trans hl, fun _ => hu⟩
  | delete nodes =>
      obtain ⟨hl, hu⟩ := (ends_deleteNodes.mp he).le_target
      exact ⟨hl, fun _ => hu.trans (Nat.le_max_right ..)⟩
  | decrease n => exact absurd rfl (hc n)
  | refresh =>
      have hg : g'.target = w'.live.card := h'.target_eq_iff.mpr .nil
      have hw : w'.live = w.live := by
        cases ends_refresh.mp he with
        | failed => exact absurd List.mem_cons_self hs.not_failed
        | renewed =>
            rw [h.application] at hs
            exact hs.live_of_status
      rw [hg, hw]
      refine ⟨(Nat.min_le_right ..).trans h.target_le, fun hr => ?_⟩
      rw [← h.target_eq_iff.mpr hr]
      exact Nat.le_max_right ..

theorem Tracks.target_session {start : Group} {w₀ : World} (h : Session act start steps g)
    (ht : Tracks app start [] w₀) (hc : ∀ d ∈ steps, ∀ n, d.command ≠ .decrease n)
    (hw : World.Serves app w₀ (eventsOf steps) w) :
    min start.minSize start.target ≤ g.target ∧
      ((accepted (eventsOf steps)).Nodup → g.target ≤ max start.maxSize start.target) := by
  induction h generalizing w with
  | idle => exact ⟨Nat.min_le_right .., fun _ => Nat.le_max_right ..⟩
  | @step steps s t c es v h he ih =>
      simp only [List.forall_mem_append, List.forall_mem_singleton] at hc
      simp only [eventsOf, List.flatMap_append, List.flatMap_singleton] at hw
      obtain ⟨w₁, h₁, h₂⟩ := World.Serves.split hw
      obtain ⟨hl, hu⟩ := ih hc.1 h₁
      obtain ⟨hl', hu'⟩ := Tracks.target_step he hc.2 (ht.session h hc.1 h₁) h₂
      obtain ⟨hmin, hmax⟩ := bounds_of_session h
      refine ⟨by omega, fun hn => ?_⟩
      simp only [eventsOf, List.flatMap_append, List.flatMap_singleton, accepted_append] at hn
      have hn := hn.of_append_left
      have hr := hu' (hn.sublist (removedSince_sublist steps))
      have hg := hu hn
      omega

/-- A group that has been set up from a snapshot of a fleet which does what it is asked, and that has gone through
increases, removals and refreshes: its target is the number of live units just if the fleet has not accepted the removal
of a unit twice since the last refresh. There are never too few live units, and not too many unless the removal of a
unit has been accepted twice. -/
theorem target_eq_card_live_iff {spec : Spec} {source : IdentitySource} {model : String} {s : Snapshot} {w₀ : World}
    (h : Session act (ofManager spec (.ofSnapshot source model app s)) steps g)
    (hc : ∀ d ∈ steps, ∀ n, d.command ≠ .decrease n) (hs : w₀.Shows app s) (hd : w₀.dying = ∅)
    (hw : World.Serves app w₀ (eventsOf steps) w) :
    (g.target = w.live.card ↔ (removedSince steps).Nodup) ∧ min spec.minSize w₀.live.card ≤ w.live.card ∧
      ((accepted (eventsOf steps)).Nodup → w.live.card ≤ max spec.maxSize w₀.live.card) := by
  have ht : Tracks app (ofManager spec (.ofSnapshot source model app s)) [] w₀ := .ofManager hs hd
  have hg := ht.session h hc hw
  have h₀ := ht.target_eq_iff.mpr .nil
  obtain ⟨hl, hu⟩ := ht.target_session h hc hw
  rw [h₀] at hl hu
  refine ⟨hg.target_eq_iff, hl.trans hg.target_le, fun hn => ?_⟩
  rw [← hg.target_eq_iff.mpr (hn.sublist (removedSince_sublist steps))]
  exact hu hn

def twoLive : World where
  live := {"app/0", "app/1"}
  dying := ∅
  gone := ∅
  live_dying := Finset.disjoint_empty_right _
  live_gone := Finset.disjoint_empty_right _
  dying_gone := Finset.disjoint_empty_right _

theorem command_removing {nodes : List String} : ∀ d ∈ (removing nodes).1, ∀ n, d.command ≠ .decrease n := by
  intro d hd n hn
  have hm := command_mem_of_mem_play hd
  rw [hn] at hm
  simp at hm

theorem target_eq_card_live_removing : (removing ["n0"]).2.target = (twoLive.remove ["app/0"]).live.card := by
  have h : Session act _ (removing ["n0"]).1 (removing ["n0"]).2 := session_play ..
  have hw : World.Serves "app" twoLive (eventsOf (removing ["n0"]).1) ((twoLive.remove ["app/0"]).vanish {"app/0"}) :=
    .cons _ (.destroyUnits (by simp)) .nil
  exact (target_eq_card_live_iff h command_removing (by decide) rfl hw).1.mpr (by decide)

/-- Of two units one goes away, and the target is none. -/
theorem target_ne_card_live_removing : ¬ ∀ (spec : Spec) (source : IdentitySource) (model app : String) (s : Snapshot)
    (w₀ w : World) (steps : List Turn) (g : Group),
    Session act (ofManager spec (.ofSnapshot source model app s)) steps g →
      (∀ d ∈ steps, ∀ n, d.command ≠ .decrease n) → w₀.Shows app s → w₀.dying = ∅ →
        World.Serves app w₀ (eventsOf steps) w → g.target = w.live.card := by
  intro h
  have hw : World.Serves "app" twoLive (eventsOf (removing ["n0", "n0"]).1)
      ((((twoLive.remove ["app/0"]).vanish ∅).remove ["app/0"]).vanish ∅) :=
    .cons _ (.destroyUnits (by simp)) (.cons _ (.destroyUnits (by simp)) .nil)
  have ht : (removing ["n0", "n0"]).2.target = _ :=
    h ⟨0, 5, "m", "app"⟩ .hostname "m" "app" twoUnits _ _ _ _ (session_play ..) command_removing (by decide) rfl hw
  exact absurd ht (by decide)

end Group
end NodeGroups
