import NodeGroups.Proofs.Manager.Lifecycle

/-!
# Retired units

A unit is retired by the reconciliation that drops it while it is still listed, and stays so until a later one no longer
finds it listed. Only reconciliations keep to this: a request for more units takes up what has come up between its own two
snapshots. Main statements: `retired_accounted` and `tracked_and_retired_iff`.
-/

namespace NodeGroups.Manager
open Fleet (IdentitySource Snapshot)
open Operation

variable {m m' : Manager} {id : String} {d : Turn} {steps : List Turn} {source : IdentitySource} {model app : String}
  {s₀ : Snapshot}

/-! ## Reconciliations among the steps -/

theorem TakesOver.eq {s t : Snapshot} (h : TakesOver d s) (h' : TakesOver d t) : s = t := by
  have he := h.2.2.symm.trans h'.2.2
  cases he
  rfl

theorem TakesOver.after_eq {s : Snapshot} (h : TakesOver d s)
    (he : (act d.command d.before).Ends d.events d.after d.value) : d.after = d.before.reconciled s := by
  obtain ⟨hc, hv, hf⟩ := h
  rw [hc, hv] at he
  obtain ⟨t, ha, hes⟩ := (ends_reconcile.mp he).ok
  rw [hes] at hf
  cases hf
  exact ha

/-- No reconciliation has succeeded in the step. -/
def TakesNone (d : Turn) : Prop := ∀ s, ¬ TakesOver d s

/-- No other step changes which units are retired, and to go away are those that were and that it has asked for. -/
theorem takesOver_or (he : (act d.command d.before).Ends d.events d.after d.value) :
    (∃ s, TakesOver d s) ∨
      TakesNone d ∧ d.after.retired = d.before.retired ∧
        ∀ id, (d.after.Deleting id ↔ id ∈ asked d.events ∨ d.before.Deleting id) := by
  obtain ⟨c, m, es, m', v⟩ := d
  dsimp only at he ⊢
  cases c with
  | scaleUp count =>
      right
      refine ⟨fun _ hs => (nomatch hs.1), ?_⟩
      rw [(ends_scaleUp.mp he).asked_eq_nil]
      simp only [List.not_mem_nil, false_or]
      cases ends_scaleUp.mp he with
      | zero | unseen | refused | lost => exact ⟨rfl, fun _ => Iff.rfl⟩
      | grown => exact ⟨rfl, fun _ => deleting_track⟩
  | scaleDown node =>
      right
      refine ⟨fun _ hs => (nomatch hs.1), ?_⟩
      rcases (ends_scaleDown.mp he).asks_or_marks with ⟨-, ha, rfl⟩ | ⟨j, u, -, ha, rfl⟩ <;> rw [ha]
      · simp
      · simp only [List.mem_singleton]
        exact ⟨rfl, fun _ => deleting_mark⟩
  | reconcile =>
      cases ends_reconcile.mp he with
      | @seen s => exact .inl ⟨s, rfl, rfl, rfl⟩
      | @unseen e =>
          right
          refine ⟨fun _ hs => (by cases e <;> cases hs.2.1), rfl, fun _ => ?_⟩
          simp [asked, Event.asked]

theorem deleting_of_session (h : Session act (ofSnapshot source model app s₀) steps m) (hd : m.Deleting id) :
    Since (Marks · id) TakesNone steps := by
  refine h.since (P := fun m => m.Deleting id) not_deleting_ofSnapshot (fun steps d h ha => ?_) hd
  obtain ⟨-, he, -⟩ := h.last rfl
  rcases takesOver_or he with ⟨s, hs⟩ | ⟨hn, -, hdel⟩
  · rw [hs.after_eq he] at ha
    exact absurd ha not_deleting_reconciled
  · exact ((hdel id).mp ha).imp (mem_asked_iff_marks he).mp fun hb => ⟨hb, hn⟩

/-! ## What is retired -/

/-- The unit is tracked before the step, and not after it. -/
def Drops (d : Turn) (id : String) : Prop := (∃ u, d.before.unit? id = some u) ∧ d.after.unit? id = none

/-- If a reconciliation has succeeded in the step, it has found the unit listed. -/
def KeepsListed (app id : String) (d : Turn) : Prop := ∀ s, TakesOver d s → s.lists app id = true

theorem Drops.takesOver (h : Drops d id) (he : (act d.command d.before).Ends d.events d.after d.value) :
    ∃ s, TakesOver d s := by
  obtain ⟨⟨u, hu⟩, hn⟩ := h
  obtain ⟨s, hs, -⟩ := ((evolves_of_ends he id).dropped u hu).mp hn
  exact ⟨s, hs⟩

/-- A listed unit that is dropped was to go away. -/
theorem deleting_iff_drops {s : Snapshot} (ha : d.after = d.before.reconciled s)
    (hl : s.lists d.before.application id = true) : d.before.Deleting id ↔ Drops d id := by
  rw [Drops, ha]
  constructor
  · rintro ⟨u, hu, hp⟩
    exact ⟨⟨u, hu⟩, (get?_units_reconciled_eq_none_iff hu).mpr (.inl hp)⟩
  · rintro ⟨⟨u, hu⟩, hn⟩
    have hp := ((get?_units_reconciled_eq_none_iff hu).mp hn).resolve_right (by simp [hl])
    exact ⟨u, hu, hp⟩

theorem retired_step_iff (he : (act d.command d.before).Ends d.events d.after d.value)
    (happ : d.before.application = app) :
    d.after.retired.contains id = true ↔
      (Drops d id ∧ KeepsListed app id d) ∨ d.before.retired.contains id = true ∧ KeepsListed app id d := by
  rcases takesOver_or he with ⟨s, hs⟩ | ⟨hn, hr, -⟩
  · have ha := hs.after_eq he
    have hk : KeepsListed app id d ↔ s.lists app id = true :=
      ⟨fun h => h s hs, fun h t ht => hs.eq ht ▸ h⟩
    rw [ha, contains_retired_reconciled, happ, ← or_and_right, ← hk, and_comm]
    refine and_congr_left fun hl => ?_
    rw [deleting_iff_drops ha (happ ▸ hk.mp hl), or_comm]
  · have hk : KeepsListed app id d := fun s hs => absurd hs (hn s)
    rw [hr, and_iff_left hk, and_iff_left hk, or_iff_right]
    intro hd
    obtain ⟨s, hs⟩ := hd.takesOver he
    exact hn s hs

theorem listed_of_retired (h : Session act (ofSnapshot source model app s₀) steps m) (hr : m.retired.contains id = true) :
    Since (fun d => ∃ s, TakesOver d s ∧ s.lists app id = true) TakesNone steps := by
  refine h.since (P := fun m => m.retired.contains id = true) nofun (fun steps d h ha => ?_) hr
  obtain ⟨hs, he, -⟩ := h.last rfl
  rcases takesOver_or he with ⟨s, ht⟩ | ⟨hn, hd, -⟩
  · rw [ht.after_eq he, contains_retired_reconciled, application_of_session hs] at ha
    exact .inl ⟨s, ht, ha.1⟩
  · exact .inr ⟨hd ▸ ha, hn⟩

theorem retired_iff_since (h : Session act (ofSnapshot source model app s₀) steps m) :
    m.retired.contains id = true ↔
      Since (fun d => Drops d id ∧ KeepsListed app id d) (KeepsListed app id) steps := by
  refine h.iff_since (P := fun m => m.retired.contains id = true) nofun fun steps d h => ?_
  obtain ⟨hs, he, -⟩ := h.last rfl
  exact retired_step_iff he (application_of_session hs)

/-- A manager has been set up from a snapshot. The units that are retired have all been listed when a reconciliation last
succeeded, and before the first one has there are none. A unit is retired just if its removal has been asked for, a
reconciliation after that has dropped it, and this one and all later ones that have succeeded have found it listed. -/
theorem retired_accounted (h : Session act (ofSnapshot source model app s₀) steps m) (id : String) :
    (m.retired.contains id = true →
        Since (fun d => ∃ s, TakesOver d s ∧ s.lists app id = true) TakesNone steps) ∧
      (m.retired.contains id = true ↔
        ∃ before drop after, steps = before ++ drop :: after ∧ Since (Marks · id) TakesNone before ∧
          (∃ s, TakesOver drop s) ∧ Drops drop id ∧ ∀ d ∈ drop :: after, KeepsListed app id d) := by
  refine ⟨listed_of_retired h, (retired_iff_since h).trans ⟨?_, ?_⟩⟩
  · rintro ⟨before, d, after, rfl, ⟨hd, hl⟩, hk⟩
    rw [← List.singleton_append, ← List.append_assoc] at h
    obtain ⟨_, h₁, -⟩ := h.split
    obtain ⟨h₀, he, -⟩ := h₁.last rfl
    obtain ⟨s, hs⟩ := hd.takesOver he
    have hb := (deleting_iff_drops (hs.after_eq he) (application_of_session h₀ ▸ hl s hs)).mpr hd
    exact ⟨before, d, after, rfl, deleting_of_session h₀ hb, ⟨s, hs⟩, hd, List.forall_mem_cons.mpr ⟨hl, hk⟩⟩
  · rintro ⟨before, d, after, rfl, -, -, hd, hk⟩
    obtain ⟨hl, hk⟩ := List.forall_mem_cons.mp hk
    exact ⟨before, d, after, rfl, ⟨hd, hl⟩, hk⟩

/-- The fleet refuses to remove a unit, then cannot be reached, and goes on listing the unit all the time. -/
def lingering : List Turn × Manager :=
  play act Fleet.Script.one
    { status := [{ outcome := some (.error (.decode "no JSON")) }, { outcome := some (.ok oneUnit) },
        { outcome := some (.ok oneUnit) }, { outcome := some (.ok oneUnit) }, { outcome := some (.ok oneUnit) }]
      addUnits := [{ outcome := some (.ok []) }]
      destroyUnits := [{ outcome := some (.error (.decode "no JSON")) }] }
    (.ofSnapshot .hostname "m" "app" oneUnit) [.scaleDown "n0", .reconcile, .reconcile, .scaleUp 1, .reconcile]

theorem retired_accounted_lingering :
    lingering.2.retired.contains "app/0" = true ∧
      Since (fun d => ∃ s, TakesOver d s ∧ s.lists "app" "app/0" = true) TakesNone lingering.1 ∧
      ∃ before drop after, lingering.1 = before ++ drop :: after ∧ Since (Marks · "app/0") TakesNone before ∧
        (∃ s, TakesOver drop s) ∧ Drops drop "app/0" ∧ ∀ d ∈ drop :: after, KeepsListed "app" "app/0" d := by
  have h : Session act _ lingering.1 lingering.2 := session_play ..
  have hr : lingering.2.retired.contains "app/0" = true := by decide
  obtain ⟨hl, hi⟩ := retired_accounted h "app/0"
  exact ⟨hr, hl hr, hi.mp hr⟩

/-! ## Units that are tracked though they are retired -/

/-- A retired unit comes up between the two snapshots of a request for more units, and is taken up. -/
structure TakesBack (d : Turn) (id : String) : Prop where
  retired : d.before.retired.contains id = true
  untracked : d.before.unit? id = none
  grown : ∃ count s t, d.command = .scaleUp count ∧ d.value = some (.ok ()) ∧ fetched d.events = [s, t] ∧
    s.lists d.before.application id = false ∧ t.lists d.before.application id = true

theorem ScalesUp.tracked_iff {count : Nat} {es : List (Event Unit)} (h : ScalesUp m count es m' (some (.ok ())))
    (hu : m.unit? id = none) :
    (∃ u, m'.unit? id = some u) ↔
      ∃ s t, fetched es = [s, t] ∧ s.lists m.application id = false ∧ t.lists m.application id = true := by
  generalize hv : some (Except.ok ()) = v at h
  cases h with
  | zero => simp [hu, fetched]
  | @unseen e | @refused _ e | @lost _ _ e => cases e <;> cases hv
  | @grown before names after =>
      have hg : (m.track (m.fresh before after).entries).unit? id = _ := get?_units_track
      have ht : (∃ u, (m.track (m.fresh before after).entries).unit? id = some u) ↔
          (m.fresh before after).contains id = true := by
        rw [hg, show m.units.get? id = none from hu, Option.or_none, Table.contains_iff]
        simp
      replace hu : m.units.get? id = none := hu
      rw [ht, contains_fresh_iff, and_iff_left hu, and_comm, fetched_append, fetched_map_warn, List.append_nil]
      constructor
      · exact fun hl => ⟨before, after, rfl, hl⟩
      · rintro ⟨s, t, hf, hl⟩
        cases hf
        exact hl

/-- But for a reconciliation, only a request for more units takes up a unit. -/
theorem tracked_iff_grown (he : (act d.command d.before).Ends d.events d.after d.value) (hn : TakesNone d)
    (hu : d.before.unit? id = none) :
    (∃ u, d.after.unit? id = some u) ↔
      ∃ count s t, d.command = .scaleUp count ∧ d.value = some (.ok ()) ∧ fetched d.events = [s, t] ∧
        s.lists d.before.application id = false ∧ t.lists d.before.application id = true := by
  constructor
  · rintro ⟨w, hw⟩
    obtain ⟨-, hok, ⟨count, hc, -⟩ | ⟨hc, -⟩⟩ := (evolves_of_ends he id).taken w hu hw <;> rw [hc, hok] at he
    · obtain ⟨s, t, hl⟩ := ((ends_scaleUp.mp he).tracked_iff hu).mp ⟨w, hw⟩
      exact ⟨count, s, t, hc, hok, hl⟩
    · obtain ⟨s, -, hes⟩ := (ends_reconcile.mp he).ok
      exact absurd ⟨hc, hok, by rw [hes]; rfl⟩ (hn s)
  · rintro ⟨count, s, t, hc, hok, hl⟩
    rw [hc, hok] at he
    exact ((ends_scaleUp.mp he).tracked_iff hu).mpr ⟨s, t, hl⟩

/-- A reconciliation brings no unit to be tracked and retired that has not been so before. -/
theorem tracked_and_retired_of_reconciled {s : Snapshot} {w : TrackedUnit} (hw : (m.reconciled s).unit? id = some w)
    (hr : (m.reconciled s).retired.contains id = true) :
    (∃ u, m.unit? id = some u) ∧ m.retired.contains id = true := by
  obtain ⟨hl, hr⟩ := contains_retired_reconciled.mp hr
  have hs : (m.reconciled s).Staying id := (staying_or_deleting_iff.mpr ⟨w, hw⟩).resolve_right not_deleting_reconciled
  have hn : ¬ m.Leaving id := fun h => (h.reconciled hl).not_staying hs
  have hr := hr.resolve_right fun hd => hn (.inl hd)
  cases hu : m.unit? id with
  | none => exact absurd (.inr ⟨hu, hr⟩) hn
  | some u => exact ⟨⟨u, rfl⟩, hr⟩

theorem retired_reconciled_of_tracked {s : Snapshot} {w : TrackedUnit} (hw : (m.reconciled s).unit? id = some w)
    (hr : m.retired.contains id = true) : (m.reconciled s).retired.contains id = true := by
  obtain ⟨st, hst, -⟩ := reconciled_eq_some hw
  exact contains_retired_reconciled.mpr ⟨Table.contains_iff.mpr ⟨st, hst⟩, .inl hr⟩

/-- A step that leaves a unit both tracked and retired has taken it back, or has found it so and kept it. -/
theorem tracked_and_retired_step_iff (he : (act d.command d.before).Ends d.events d.after d.value) :
    ((∃ u, d.after.unit? id = some u) ∧ d.after.retired.contains id = true) ↔
      TakesBack d id ∨
        ((∃ u, d.before.unit? id = some u) ∧ d.before.retired.contains id = true) ∧ ∃ u, d.after.unit? id = some u := by
  rcases takesOver_or he with ⟨s, hs⟩ | ⟨hn, hd, -⟩
  · have ht : ¬ TakesBack d id := fun ⟨_, _, _, _, _, hc, _⟩ => nomatch hc.symm.trans hs.1
    rw [or_iff_right ht, hs.after_eq he]
    constructor
    · rintro ⟨⟨w, hw⟩, hr⟩
      exact ⟨tracked_and_retired_of_reconciled hw hr, w, hw⟩
    · rintro ⟨⟨-, hr⟩, w, hw⟩
      exact ⟨⟨w, hw⟩, retired_reconciled_of_tracked hw hr⟩
  · rw [hd]
    constructor
    · rintro ⟨ht, hr⟩
      cases hu : d.before.unit? id with
      | some u => exact .inr ⟨⟨⟨u, rfl⟩, hr⟩, ht⟩
      | none => exact .inl ⟨hr, hu, (tracked_iff_grown he hn hu).mp ht⟩
    · rintro (⟨hr, hu, hg⟩ | ⟨⟨-, hr⟩, ht⟩)
      · exact ⟨(tracked_iff_grown he hn hu).mpr hg, hr⟩
      · exact ⟨ht, hr⟩

/-- A manager has been set up from a snapshot. A unit is tracked and retired at the same time just if a request for more units
has taken it up while it was retired, as one that its first snapshot did not list and its second did, and it has been tracked
ever since. -/
theorem tracked_and_retired_iff (h : Session act (ofSnapshot source model app s₀) steps m) (id : String) :
    ((∃ u, m.unit? id = some u) ∧ m.retired.contains id = true) ↔
      Since (TakesBack · id) (fun d => ∃ u, d.after.unit? id = some u) steps := by
  refine h.iff_since (P := fun m => (∃ u, m.unit? id = some u) ∧ m.retired.contains id = true) nofun fun steps d h => ?_
  obtain ⟨-, he, -⟩ := h.last rfl
  exact tracked_and_retired_step_iff he

/-- A retired unit is missing from the first snapshot of a request for more units, and is listed by the second. -/
def returning : List Turn × Manager :=
  play act Fleet.Script.one
    { status := [{ outcome := some (.ok oneUnit) }, { outcome := some (.ok {}) }, { outcome := some (.ok oneUnit) }]
      addUnits := [{ outcome := some (.ok []) }]
      destroyUnits := [{ outcome := some (.ok []) }] }
    (.ofSnapshot .hostname "m" "app" oneUnit) [.scaleDown "n0", .reconcile, .scaleUp 1]

theorem session_returning : Session act (.ofSnapshot .hostname "m" "app" oneUnit) returning.1 returning.2 :=
  session_play ..

theorem tracked_and_retired_returning :
    (∃ u, returning.2.unit? "app/0" = some u) ∧ returning.2.retired.contains "app/0" = true ∧
      Since (TakesBack · "app/0") (fun d => ∃ u, d.after.unit? "app/0" = some u) returning.1 := by
  have hi := tracked_and_retired_iff session_returning "app/0"
  have hu : ∃ u, returning.2.unit? "app/0" = some u := ⟨_, rfl⟩
  have hr : returning.2.retired.contains "app/0" = true := by decide
  exact ⟨hu, hr, hi.mp ⟨hu, hr⟩⟩

theorem not_disjoint_returning : ¬ ∀ (source : IdentitySource) (model app id : String) (s₀ : Snapshot) (steps : List Turn)
    (m : Manager), Session act (ofSnapshot source model app s₀) steps m →
      ¬ ((∃ u, m.unit? id = some u) ∧ m.retired.contains id = true) :=
  fun h => h _ _ _ "app/0" _ _ _ session_returning ⟨⟨_, rfl⟩, by decide⟩

end NodeGroups.Manager
