import NodeGroups.Fleet.Script
import NodeGroups.Proofs.Manager.Ending
import NodeGroups.Proofs.Manager.Lookup

/-!
# Removed units do not come back

A unit that is to go away is kept from being tracked anew in three ways: its phase is kept while it is tracked, it is
retired when it is dropped, and a request for more units takes up none that was listed before. Main statement:
`unlisted_before_comeback`, that only a snapshot without the unit lets it come back.
-/

namespace NodeGroups.Manager
open Fleet (Snapshot)
open Operation

variable {m m' : Manager} {id : String}

/-- The unit is to go away, or it has been dropped and is retired. -/
def Leaving (m : Manager) (id : String) : Prop :=
  m.Deleting id ∨ (m.units.get? id = none ∧ m.retired.contains id = true)

theorem Leaving.track {before after : Snapshot} (h : m.Leaving id) (hl : before.lists m.application id = true) :
    (m.track (m.fresh before after).entries).Leaving id := by
  have hf : (m.fresh before after).get? id = none := by
    rw [← Table.contains_eq_false_iff, ← Bool.not_eq_true, contains_fresh_iff]
    simp [hl]
  have hu : (m.track (m.fresh before after).entries).units.get? id = m.units.get? id := by
    rw [get?_units_track, hf]
    rfl
  rw [Leaving, Deleting, hu]
  exact h

theorem Leaving.mark {j : String} {u : TrackedUnit} (h : m.Leaving id) : (m.mark j u).Leaving id := by
  rw [Leaving, deleting_mark, get?_units_mark]
  by_cases hj : id = j
  · exact .inl (.inl hj)
  · rw [if_neg hj]
    exact h.imp_left .inr

theorem Leaving.reconciled {s : Snapshot} (h : m.Leaving id) (hl : s.lists m.application id = true) :
    (m.reconciled s).Leaving id := by
  right
  rw [get?_units_reconciled, contains_retired_reconciled]
  obtain ⟨st, hst⟩ := Table.contains_iff.mp hl
  rw [hst]
  rcases h with ⟨u, hu, hp⟩ | ⟨hu, hr⟩
  · have ho : ((u.resolve (m.source.resolve s st)).observe st).phase = .deleting := by
      rw [TrackedUnit.phase_observe_eq_deleting_iff, TrackedUnit.phase_resolve, hp]
    refine ⟨?_, hl, .inr ⟨u, hu, hp⟩⟩
    simp [observed, hu, Option.filter, ho]
  · refine ⟨?_, hl, .inl hr⟩
    simp [observed, hu, hr]

theorem application_of_ends {c : Command} {es : List (Event Unit)} {v : Option (Except Error Unit)}
    (h : (act c m).Ends es m' v) : m'.application = m.application := by
  cases c with
  | scaleUp count => cases ends_scaleUp.mp h <;> rfl
  | scaleDown node => cases ends_scaleDown.mp h <;> rfl
  | reconcile =>
      cases ends_reconcile.mp h with
      | unseen => rfl
      | seen => exact application_reconciled

theorem Leaving.of_ends {c : Command} {es : List (Event Unit)} {v : Option (Except Error Unit)} (h : m.Leaving id)
    (he : (act c m).Ends es m' v) (hl : ∀ s ∈ fetched es, s.lists m.application id = true) : m'.Leaving id := by
  cases c with
  | scaleUp count =>
      cases ends_scaleUp.mp he with
      | zero | unseen | refused | lost => exact h
      | grown => exact h.track (hl _ (by simp [fetched, Event.snapshot?]))
  | scaleDown node =>
      cases ends_scaleDown.mp he with
      | unknown => exact h
      | refused | accepted => exact h.mark
  | reconcile =>
      cases ends_reconcile.mp he with
      | unseen => exact h
      | seen => exact h.reconciled (hl _ (by simp [fetched, Event.snapshot?]))

theorem application_of_session {steps : List Turn} (h : Session act m steps m') :
    m'.application = m.application :=
  h.preserves (p := fun m' => m'.application = m.application) rfl
    fun _ _ _ _ _ he ha => (application_of_ends he).trans ha

theorem Leaving.of_session {steps : List Turn} (h : m.Leaving id) (hs : Session act m steps m')
    (hl : ∀ s ∈ fetched (eventsOf steps), s.lists m.application id = true) :
    m'.Leaving id := by
  induction hs with
  | idle => exact h
  | step hs he ih =>
      simp only [eventsOf, fetched, List.flatMap_append, List.filterMap_append, List.mem_append] at hl
      refine (ih fun s hs => hl s (.inl hs)).of_ends he fun s hs' => ?_
      rw [application_of_session hs]
      exact hl s (.inr (by simpa [fetched] using hs'))

/-- The step is a removal that marks the unit. -/
def Marks (d : Turn) (id : String) : Prop :=
  ∃ node u, d.command = .scaleDown node ∧ d.before.backing? node = some (id, u)

theorem Marks.leaving {d : Turn} (h : Marks d id) (he : (act d.command d.before).Ends d.events d.after d.value) :
    d.after.Leaving id := by
  obtain ⟨c, m, es, m', v⟩ := d
  obtain ⟨node, u, rfl, hb⟩ := h
  replace he : (m.scaleDown node).Ends es m' v := he
  cases ends_scaleDown.mp he with
  | unknown hn => rw [hn] at hb; cases hb
  | refused hn | accepted hn =>
      rw [hn] at hb
      cases hb
      exact .inl (deleting_mark.mpr (.inl rfl))

/-- Between the removal of a unit and a later moment at which it is tracked as one that is created or runs, a snapshot
has been fetched that does not list it. A session may start from any manager, and so from one that has just been set
up. -/
theorem unlisted_before_comeback {steps steps' : List Turn} {d : Turn} {u : TrackedUnit}
    (h : Session act m (steps ++ d :: steps') m')
    (hd : Marks d id) (hu : m'.units.get? id = some u) (hp : u.phase = .creating ∨ u.phase = .running) :
    ∃ s ∈ fetched (eventsOf steps'), s.lists m.application id = false := by
  rw [← List.singleton_append, ← List.append_assoc] at h
  obtain ⟨m₁, h₁, h₂⟩ := h.split
  obtain ⟨h₀, he, rfl⟩ := h₁.last rfl
  have ha : d.after.application = m.application := application_of_session h₁
  by_contra hn
  have hl : ∀ s ∈ fetched (eventsOf steps'), s.lists d.after.application id = true := by
    intro s hs
    rw [ha, ← Bool.not_eq_false]
    exact fun hf => hn ⟨s, hs, hf⟩
  rcases (hd.leaving he).of_session h₂ hl with ⟨w, hw, hwp⟩ | ⟨hw, -⟩
  · rw [hu] at hw
    cases hw
    rcases hp with hp | hp <;> rw [hp] at hwp <;> cases hwp
  · rw [hu] at hw
    cases hw

def oneUnit : Snapshot where
  applications := .ofList [("app", .ofList [("app/0",
    { agent := { current := "idle" }, workload := { current := "active" }, machine := "0" })])]
  machines := [("0", { hostname := "n0" })]

/-- The unit is removed, is missing from a snapshot, and is listed again. -/
def rejoining : List Turn × Manager :=
  play act Fleet.Script.one
    { status := [{ outcome := some (.ok {}) }, { outcome := some (.ok oneUnit) }]
      destroyUnits := [{ outcome := some (.ok []) }] }
    (.ofSnapshot .hostname "m" "app" oneUnit) [.scaleDown "n0", .reconcile, .reconcile]

theorem unlisted_before_comeback_rejoining :
    (rejoining.2.units.get? "app/0").map (·.phase) = some .running ∧
      ∃ s ∈ fetched (eventsOf rejoining.1.tail), s.lists "app" "app/0" = false := by
  have hr : Session act _ rejoining.1 rejoining.2 := session_play ..
  have h : Session act _ ([] ++ rejoining.1.head nofun :: rejoining.1.tail) rejoining.2 := hr
  obtain ⟨s, hs, hl⟩ := unlisted_before_comeback h ⟨"n0", _, rfl, rfl⟩ rfl (.inr rfl)
  exact ⟨rfl, s, hs, hl⟩

end NodeGroups.Manager
