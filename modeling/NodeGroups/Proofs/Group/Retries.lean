import NodeGroups.Proofs.Group.Registered
import NodeGroups.Proofs.Manager.Comeback

/-!
# Repeated increases

An increase looks at the units, asks for more and looks again. The target moves only after all of that. Main statement:
`added_le_max`, that repeated increases keep to the maximum apart from requests whose units have not been looked up.
-/

namespace NodeGroups
open Operation

/-- The fleet has accepted a request for more units, and the call after it has not been answered. -/
def Operation.isLost {ι : Type} : List (Event ι) → Bool
  | [.call _ (.status _) _, .call _ (.addUnits ..) (some (.ok _)), .call _ (.status _) outcome] =>
      !outcome.any (·.isOk)
  | _ => false

namespace Manager

variable {m m' : Manager} {count : Nat} {es : List (Event Unit)} {v : Option (Except Error Unit)}

theorem ScalesUp.added_of_ok (h : ScalesUp m count es m' (some (.ok ()))) (hc : count ≠ 0) :
    added es = count ∧ isLost es = false := by
  obtain ⟨before, names, after, -, rfl⟩ := h.ok hc
  constructor
  · rw [added_append, added_map_warn]
    exact (Nat.zero_add _).trans (Nat.add_zero _)
  · split <;> rfl

theorem ScalesUp.added_of_not_ok (h : ScalesUp m count es m' v) (hv : v ≠ some (.ok ())) :
    added es ≤ count ∧ (isLost es = false → added es = 0) := by
  cases h with
  | zero | grown => exact absurd rfl hv
  | @unseen e => cases e <;> exact ⟨Nat.zero_le _, fun _ => rfl⟩
  | @refused _ e => cases e <;> exact ⟨Nat.zero_le _, fun _ => rfl⟩
  | @lost _ _ e =>
      have ha : ∀ n : Nat, 0 + (n + 0) = n := fun n => Nat.zero_add n
      cases e <;> exact ⟨(ha count).le, nofun⟩

end Manager

namespace Group

variable {g g' : Group} {es : List (Event Unit)} {v : Option (Except Provider.Error Unit)}

/-- An increase counts the units that it has looked up, and asks for no more than the maximum leaves. -/
theorem Increases.added {delta : Nat} (h : Increases g delta es g' v) :
    g'.target = g.target + (if isLost es then 0 else added es) ∧ g.target + added es ≤ max g.maxSize g.target := by
  cases h with
  | invalid | tooLarge => exact ⟨rfl, Nat.le_max_right ..⟩
  | failed _ ha hu hv =>
      obtain ⟨hle, hl⟩ := hu.added_of_not_ok hv
      have hm := ha.2.1
      refine ⟨?_, by omega⟩
      split
      · rfl
      · next hn => rw [hl (Bool.eq_false_of_not_eq_true hn)]; rfl
  | grown hd ha hu =>
      obtain ⟨hc, hl⟩ := hu.added_of_ok hd
      rw [hl, hc]
      exact ⟨rfl, ha.2.1.trans (Nat.le_max_left ..)⟩

/-- A group that has just been set up, or that has just been refreshed. -/
inductive Settled : Group → Prop
  | ofManager (spec : Spec) (m : Manager) : Settled (ofManager spec m)
  | refresh {g g' : Group} {es : List (Event Unit)} : g.refresh.Ends es g' (some (.ok ())) → Settled g'

theorem Settled.target_eq (h : Settled g) : g.target = g.size := by
  cases h with
  | ofManager spec m => rfl
  | refresh h =>
      generalize hv : some (Except.ok ()) = v at h
      cases ends_refresh.mp h with
      | @failed e => cases e <;> cases hv
      | renewed => rfl

theorem added_filter_singleton (d : Turn) :
    added (eventsOf ([d].filter fun d => !isLost d.events)) = if isLost d.events then 0 else added d.events := by
  cases hl : isLost d.events <;> simp [hl, eventsOf, added]

theorem bounds_of_increases {start : Group} {steps : List Turn} (h : Session act start steps g)
    (hi : ∀ d ∈ steps, ∃ delta, d.command = Command.increase delta) :
    start.target + added (eventsOf (steps.filter fun d => !isLost d.events)) = g.target ∧
      g.target ≤ max start.maxSize start.target ∧
        ∀ d ∈ steps, d.before.target + added d.events ≤ max start.maxSize start.target := by
  induction h with
  | idle => exact ⟨rfl, Nat.le_max_right .., by simp⟩
  | @step steps s t c es v h he ih =>
      simp only [List.forall_mem_append, List.forall_mem_singleton] at hi ⊢
      obtain ⟨hs, hm, hb⟩ := ih hi.1
      obtain ⟨delta, rfl⟩ := hi.2
      obtain ⟨ht, hr⟩ := (ends_increaseSize.mp he).added
      have hmax := (bounds_of_session h).2
      refine ⟨?_, ?_, hb, by omega⟩
      · rw [List.filter_append, eventsOf, List.flatMap_append, added_append, ← Nat.add_assoc, ht, ← hs]
        exact congrArg (_ + ·) (added_filter_singleton _)
      · split at ht <;> omega

/-- After a group has been set up or refreshed it is asked for more units, any number of times. Then its target is the
size that it had and all units that the fleet has accepted to add, but for those that were not looked up afterwards. It
is not above the maximum, unless the size was, and no request goes beyond that either. -/
theorem added_le_max {start : Group} {steps : List Turn} (h₀ : Settled start) (h : Session act start steps g)
    (hi : ∀ d ∈ steps, ∃ delta, d.command = Command.increase delta) :
    start.size + added (eventsOf (steps.filter fun d => !isLost d.events)) = g.target ∧
      g.target ≤ max start.maxSize start.size ∧
        ∀ d ∈ steps, d.before.target + added d.events ≤ max start.maxSize start.size := by
  rw [← h₀.target_eq]
  exact bounds_of_increases h hi

/-- A group of one of the two units, which may grow to two. The first request is accepted, but the snapshot after it
fails, so that the second request goes out too. -/
def retrying : List Turn × Group :=
  play act Fleet.Script.one
    { status := [{ outcome := some (.ok Manager.oneUnit) }, { outcome := some (.error (.decode "no JSON")) },
        { outcome := some (.ok twoUnits) }, { outcome := some (.ok twoUnits) }]
      addUnits := [{ outcome := some (.ok []) }, { outcome := some (.ok []) }] }
    (ofManager ⟨0, 2, "m", "app"⟩ (.ofSnapshot .hostname "m" "app" Manager.oneUnit)) [.increase 1, .increase 1]

theorem increases_retrying : ∀ d ∈ retrying.1, ∃ delta, d.command = Command.increase delta := by
  intro d hd
  exact ⟨1, by simpa using command_mem_of_mem_play hd⟩

theorem added_le_max_retrying :
    1 + added (eventsOf (retrying.1.filter fun d => !isLost d.events)) = retrying.2.target ∧ retrying.2.target ≤ 2 := by
  have h : Session act _ retrying.1 retrying.2 := session_play ..
  obtain ⟨ht, hm, -⟩ := added_le_max (.ofManager _ _) h increases_retrying
  exact ⟨ht, hm.trans (by decide)⟩

/-- Of one unit, with room for one more, two are added. -/
theorem max_lt_added_retrying : ¬ ∀ (start g : Group) (steps : List Turn), Settled start → Session act start steps g →
      (∀ d ∈ steps, ∃ delta, d.command = .increase delta) →
        start.size + added (eventsOf steps) ≤ max start.maxSize start.size := by
  intro h
  have ha := h _ _ retrying.1 (.ofManager ⟨0, 2, "m", "app"⟩ _) (session_play ..) increases_retrying
  exact absurd ha (by decide)

end Group
end NodeGroups
