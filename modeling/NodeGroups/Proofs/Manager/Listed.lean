import NodeGroups.Proofs.Manager.Staying

/-!
# Tracked units and listed units

Only units that a snapshot has listed are tracked. One that every snapshot lists stays as it was found, until its removal
is asked for. Then it is on its way out, whatever the fleet makes of the request. Main statement: `tracked_iff_not_asked`.
-/

namespace NodeGroups.Manager
open Fleet (IdentitySource Snapshot)
open Operation

variable {m m' : Manager} {id : String} {es : List (Event Unit)} {v : Option (Except Error Unit)}

/-! ## Tracked units have been listed -/

/-- Each tracked unit is listed by one of the snapshots that have come in. -/
def Known (m : Manager) (es : List (Event Unit)) : Prop :=
  ∀ id u, m.units.get? id = some u →
    ∃ s, .answered () (.status [m.application]) s ∈ es ∧ s.lists m.application id = true

namespace Known

theorem append (h : m.Known es) (es' : List (Event Unit)) : m.Known (es ++ es') := by
  intro j u hu
  obtain ⟨s, hs, hl⟩ := h j u hu
  exact ⟨s, List.mem_append_left _ hs, hl⟩

theorem of_callsTo {p : List (Event Unit)} (h : m.Known (p ++ es)) : m.Known (p ++ callsTo () es) := by
  intro j u hu
  obtain ⟨s, hs, hl⟩ := h j u hu
  refine ⟨s, ?_, hl⟩
  rwa [List.mem_append, mem_callsTo_iff, ← List.mem_append]

theorem ofSnapshot {source : IdentitySource} {model app : String} {s : Snapshot}
    (hs : .answered () (.status [app]) s ∈ es) : (ofSnapshot source model app s).Known es := by
  intro j u hu
  have hl := staying_or_deleting_iff.mpr ⟨u, hu⟩
  rw [staying_ofSnapshot, or_iff_left not_deleting_ofSnapshot] at hl
  exact ⟨s, hs, hl⟩

theorem mark {u : TrackedUnit} (h : m.Known es) (hu : m.units.get? id = some u) : (m.mark id u).Known es := by
  intro j w hw
  rw [get?_units_mark] at hw
  split at hw
  · next hj => exact hj ▸ h id u hu
  · exact h j w hw

theorem scalesUp {count : Nat} {es' : List (Event Unit)} (h : m.Known es) (hs : ScalesUp m count es' m' v) :
    m'.Known (es ++ es') := by
  cases hs with
  | zero | unseen | refused | lost => exact h.append _
  | @grown before names after _ =>
      intro j u hu
      rcases staying_or_deleting_iff.mpr ⟨u, hu⟩ with hst | hd
      · rcases staying_track.mp hst with hf | ⟨w, hw, -⟩
        · exact ⟨after, by simp [track], (contains_fresh_iff.mp hf).1⟩
        · exact h.append _ j w hw
      · obtain ⟨w, hw, -⟩ := deleting_track.mp hd
        exact h.append _ j w hw

theorem reconciled {s : Snapshot} (hs : .answered () (.status [m.application]) s ∈ es) :
    (m.reconciled s).Known es := by
  intro j u hu
  rcases staying_or_deleting_iff.mpr ⟨u, hu⟩ with hst | hd
  · rw [application_reconciled]
    exact ⟨s, hs, hst.lists_of_reconciled⟩
  · exact absurd hd not_deleting_reconciled

end Known

/-! ## Listed units are tracked -/

theorem ScalesUp.asked_eq_nil {count : Nat} (h : ScalesUp m count es m' v) : asked es = [] := by
  cases h with
  | zero | unseen | refused | lost => rfl
  | grown =>
      rw [asked_append, asked_map_warn]
      rfl

theorem ScalesUp.isRemoval {count : Nat} (h : ScalesUp m count es m' v) : ∀ e ∈ es, e.isRemoval = false := by
  cases h with
  | zero | unseen | refused | lost => simp [Event.isRemoval]
  | grown =>
      intro e he
      rcases List.mem_append.mp he with he | he
      · simp only [List.mem_cons, List.not_mem_nil, or_false] at he
        rcases he with rfl | rfl | rfl <;> rfl
      · obtain ⟨n, -, rfl⟩ := List.mem_map.mp he
        rfl

/-- A removal changes nothing, or asks for the unit that it marks. -/
theorem ScalesDownTo.asks_or_marks {found : Option (String × TrackedUnit)} {node : String}
    (h : ScalesDownTo m found node es m' v) :
    (found = none ∧ asked es = [] ∧ m' = m) ∨ ∃ j u, found = some (j, u) ∧ asked es = [j] ∧ m' = m.mark j u := by
  cases h with
  | unknown hn => exact .inl ⟨hn, rfl, rfl⟩
  | refused hb => exact .inr ⟨_, _, hb, rfl, rfl⟩
  | @accepted j u removals hb =>
      refine .inr ⟨j, u, hb, ?_, rfl⟩
      simpa [asked] using asked_removal () [j] removals (rejections removals) []

/-- The turn is a removal that marks the unit, which it has found in the order in which it goes over the units. -/
def MarksIn (d : ScanTurn) (id : String) : Prop :=
  ∃ node u, d.command.command = .scaleDown node ∧ backingIn (d.command.scan.entries d.before.units) node = some (id, u)

/-- A unit is marked just by the operation that asks for its removal. -/
theorem mem_asked_iff_marksIn {d : ScanTurn} (he : (follow d.command d.before).Ends d.events d.after d.value) :
    id ∈ asked d.events ↔ MarksIn d id := by
  obtain ⟨⟨c, scan⟩, m, es, m', v⟩ := d
  dsimp only at he ⊢
  cases c with
  | scaleUp count =>
      rw [(ends_scaleUp.mp he).asked_eq_nil]
      exact iff_of_false List.not_mem_nil fun ⟨_, _, hc, _⟩ => nomatch hc
  | scaleDown node =>
      rcases (ends_scaleDownIn.mp he).asks_or_marks with ⟨hb, ha, -⟩ | ⟨j, u, hb, ha, -⟩
      · rw [ha]
        exact iff_of_false List.not_mem_nil fun ⟨_, _, hc, hm⟩ => by cases hc; cases hb.symm.trans hm
      · rw [ha, List.mem_singleton]
        constructor
        · rintro rfl
          exact ⟨node, u, rfl, hb⟩
        · rintro ⟨_, _, hc, hm⟩
          cases hc
          cases hb.symm.trans hm
          rfl
  | reconcile =>
      cases ends_reconcile.mp he with
      | unseen | seen => exact iff_of_false List.not_mem_nil fun ⟨_, _, hc, _⟩ => nomatch hc

theorem mem_asked_iff_marks {d : Turn} (he : (act d.command d.before).Ends d.events d.after d.value) :
    id ∈ asked d.events ↔ Marks d id := by
  obtain ⟨c, m, es, m', v⟩ := d
  rw [act_eq_follow] at he
  exact mem_asked_iff_marksIn (d := ⟨⟨c, .ascending⟩, m, es, m', v⟩) he

theorem Staying.of_ends {c : Command} (h : m.Staying id) (he : (act c m).Ends es m' v)
    (hl : ∀ s ∈ fetched es, s.lists m.application id = true) (ha : id ∉ asked es) : m'.Staying id := by
  cases c with
  | scaleUp count =>
      cases ends_scaleUp.mp he with
      | zero | unseen | refused | lost => exact h
      | grown => exact staying_track.mpr (.inr h)
  | scaleDown node =>
      rcases (ends_scaleDown.mp he).asks_or_marks with ⟨-, -, rfl⟩ | ⟨j, u, -, hj, rfl⟩
      · exact h
      · rw [hj, List.mem_singleton] at ha
        exact staying_mark.mpr ⟨ha, h⟩
  | reconcile =>
      cases ends_reconcile.mp he with
      | unseen => exact h
      | seen => exact h.reconciled (hl _ (by simp [fetched, Event.snapshot?]))

theorem leaving_of_mem_asked {c : Command} (he : (act c m).Ends es m' v) (ha : id ∈ asked es) : m'.Leaving id := by
  cases c with
  | scaleUp count =>
      rw [(ends_scaleUp.mp he).asked_eq_nil] at ha
      exact absurd ha List.not_mem_nil
  | scaleDown node =>
      rcases (ends_scaleDown.mp he).asks_or_marks with ⟨-, hn, -⟩ | ⟨j, u, -, hj, rfl⟩
      · rw [hn] at ha
        exact absurd ha List.not_mem_nil
      · rw [hj, List.mem_singleton] at ha
        exact .inl (deleting_mark.mpr (.inl ha))
  | reconcile =>
      cases ends_reconcile.mp he with
      | unseen | seen => exact absurd ha List.not_mem_nil

/-- A unit that is listed all the time stays until its removal is asked for, and then leaves. -/
theorem Staying.of_session {steps : List Turn} (h : m.Staying id) (hs : Session act m steps m')
    (hl : ∀ s ∈ fetched (eventsOf steps), s.lists m.application id = true) :
    (id ∉ asked (eventsOf steps) → m'.Staying id) ∧ (id ∈ asked (eventsOf steps) → m'.Leaving id) := by
  induction hs with
  | idle => exact ⟨fun _ => h, fun ha => absurd ha List.not_mem_nil⟩
  | @step steps s t c es v hs he ih =>
      simp only [eventsOf, fetched, List.flatMap_append, List.flatMap_singleton, List.filterMap_append,
        List.mem_append] at hl
      simp only [eventsOf, List.flatMap_append, List.flatMap_singleton, asked_append, List.mem_append]
      obtain ⟨hst, hle⟩ := ih fun s hs => hl s (.inl hs)
      have hes : ∀ t ∈ fetched es, t.lists s.application id = true := by
        intro t ht
        rw [application_of_session hs]
        exact hl t (.inr ht)
      -- once asked for, the unit is not taken up again, so only the first request counts
      constructor
      · intro ha
        rw [not_or] at ha
        exact (hst ha.1).of_ends he hes ha.2
      · intro ha
        by_cases hn : id ∈ asked es
        · exact leaving_of_mem_asked he hn
        · exact (hle (ha.resolve_right hn)).of_ends he hes

/-- A manager has been set up from a snapshot that lists a unit, and every other snapshot lists it too. After a
reconciliation the unit is tracked just if nobody has asked for its removal, whether or not it was accepted. -/
theorem tracked_iff_not_asked {source : IdentitySource} {model app : String} {s₀ : Snapshot} {steps : List Turn}
    {d : Turn} (h : Session act (ofSnapshot source model app s₀) (steps ++ [d]) m)
    (hl : ∀ s ∈ s₀ :: fetched (eventsOf (steps ++ [d])), s.lists app id = true)
    (hd : d.command = .reconcile) (hv : d.value = some (.ok ())) :
    (∃ u, m.unit? id = some u) ↔ id ∉ asked (eventsOf steps) := by
  rw [List.forall_mem_cons] at hl
  obtain ⟨hst, hle⟩ := (staying_ofSnapshot.mpr hl.1).of_session h hl.2
  obtain ⟨-, he, rfl⟩ := h.last rfl
  rw [hd, hv] at he
  obtain ⟨s, hs, hes⟩ := (ends_reconcile.mp he).ok
  have ha : asked (eventsOf (steps ++ [d])) = asked (eventsOf steps) := by
    simp [eventsOf, hes, asked, Event.asked]
  rw [ha] at hst hle
  constructor
  · rintro ⟨u, hu⟩ hn
    rcases hle hn with hde | ⟨hun, -⟩
    · rw [hs] at hde
      exact not_deleting_reconciled hde
    · cases hu.symm.trans hun
  · intro hn
    obtain ⟨u, hu, -⟩ := hst hn
    exact ⟨u, hu⟩

/-- A manager of one unit, which stays listed. The fleet refuses to remove it. -/
def refusing (cs : List Command) : List Turn × Manager :=
  play act Fleet.Script.one
    { status := [{ outcome := some (.ok oneUnit) }], destroyUnits := [{ outcome := some (.error (.decode "no JSON")) }] }
    (.ofSnapshot .hostname "m" "app" oneUnit) cs

theorem session_refusing (cs : List Command) :
    Session act (.ofSnapshot .hostname "m" "app" oneUnit) (refusing cs).1 (refusing cs).2 :=
  session_play ..

theorem tracked_iff_not_asked_refusing :
    (∃ u, (refusing [.reconcile]).2.unit? "app/0" = some u) ∧
      ¬ ∃ u, (refusing [.scaleDown "n0", .reconcile]).2.unit? "app/0" = some u := by
  have h : Session act _ ([] ++ [_]) _ := session_refusing [.reconcile]
  have h' : Session act _ ([_] ++ [_]) _ := session_refusing [.scaleDown "n0", .reconcile]
  constructor
  · exact (tracked_iff_not_asked h (by decide) rfl rfl).mpr (by decide)
  · rw [tracked_iff_not_asked h' (by decide) rfl rfl]
    decide

/-- The fleet has refused to remove the unit and goes on listing it as ready, but the unit is not tracked. -/
theorem untracked_refusing : ¬ ∀ (source : IdentitySource) (model app id : String) (s₀ : Snapshot) (steps : List Turn)
    (d : Turn) (m : Manager), Session act (ofSnapshot source model app s₀) (steps ++ [d]) m →
      (∀ s ∈ s₀ :: fetched (eventsOf (steps ++ [d])), (s.unit? app id).any (·.isReady) = true) →
        (∀ e ∈ eventsOf (steps ++ [d]), e.removes id = false) →
          d.command = .reconcile → d.value = some (.ok ()) → ∃ u, m.unit? id = some u := by
  intro h
  have hs : Session act _ ([_] ++ [_]) _ := session_refusing [.scaleDown "n0", .reconcile]
  obtain ⟨u, hu⟩ := h _ _ _ "app/0" _ _ _ _ hs (by decide) (by decide) rfl rfl
  have hn : (refusing [.scaleDown "n0", .reconcile]).2.unit? "app/0" = none := by decide
  rw [hn] at hu
  cases hu

end NodeGroups.Manager
