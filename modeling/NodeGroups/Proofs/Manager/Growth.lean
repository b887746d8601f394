import NodeGroups.Proofs.Calls
import NodeGroups.Proofs.Manager.Names

/-!
# The outcome of a request for more units

The units that have come up between two snapshots are looked for one by one, in any order. What the manager is after that can
be told unit by unit from the snapshots and from what it was before. Main statement: `scaleUp_outcome`.
-/

namespace NodeGroups.Manager
open Fleet (Snapshot UnitStatus)
open Operation

variable {m m' t : Manager} {before after : Snapshot} {count n : Nat} {es : List (Event Unit)}
  {v : Option (Except Error Unit)} {listed : List (String × UnitStatus)}

/-! ## Looking in any order -/

/-- The unit is listed only after the request, and is not tracked. -/
def isNew (m : Manager) (before : Snapshot) (e : String × UnitStatus) : Bool :=
  !before.lists m.application e.1 && !m.units.contains e.1

/-- Looks at one of the units that are listed after the request: it is tracked if it is new, and counts. -/
def takeUp (before : Snapshot) (p : Manager × Nat) (e : String × UnitStatus) : Manager × Nat :=
  if p.1.isNew before e then (p.1.track [e], p.2 + 1) else p

theorem isNew_track {e x : String × UnitStatus} (h : x.1 ≠ e.1) : (m.track [e]).isNew before x = m.isNew before x := by
  have hu : (m.track [e]).units.get? x.1 = m.units.get? x.1 := (Table.get?_insert ..).trans (if_neg h)
  rw [isNew, isNew, Table.contains, hu]
  rfl

theorem foldl_takeUp (hn : (listed.map (·.1)).Nodup) :
    listed.foldl (takeUp before) (m, n) =
      (m.track (listed.filter (m.isNew before)), n + (listed.filter (m.isNew before)).length) := by
  induction listed generalizing m n with
  | nil => rfl
  | cons e rest ih =>
      rw [List.map_cons, List.nodup_cons] at hn
      rw [List.foldl_cons, takeUp]
      by_cases he : m.isNew before e = true
      · -- the units after this one are as new as before, for none of them is this one
        have hr : rest.filter ((m.track [e]).isNew before) = rest.filter (m.isNew before) := by
          refine List.filter_congr fun x hx => isNew_track fun hxe => hn.1 ?_
          exact hxe ▸ List.mem_map_of_mem hx
        rw [if_pos he, ih hn.2, hr, List.filter_cons_of_pos he, List.length_cons, Nat.add_assoc, Nat.add_comm 1]
        rfl
      · rw [if_neg he, ih hn.2, List.filter_cons_of_neg he]

theorem track_eq_of_perm {l l' : List (String × UnitStatus)} (h : l.Perm l') (hn : (l.map (·.1)).Nodup) :
    m.track l = m.track l' := by
  have hu : (m.track l).units = (m.track l').units := by
    refine Table.ext_get? fun id => ?_
    have hf (k : List (String × UnitStatus)) (hk : (k.map (·.1)).Nodup) :=
      Table.get?_foldl_insert (fun id status => ({ externalId := id, phase := .creating, status } : TrackedUnit)) id k hk m.units
    refine (hf l hn).trans (Eq.trans ?_ (hf l' ((h.map _).nodup_iff.mp hn)).symm)
    rw [Table.lookup_eq_of_perm h hn]
  exact congrArg (fun units => { m with units }) hu

/-- The units that come up are tracked and counted alike, in whatever order the listed ones are looked at. -/
theorem foldl_takeUp_of_perm (h : listed.Perm (after.unitsOf m.application).entries) :
    listed.foldl (takeUp before) (m, 0) = (m.track (m.fresh before after).entries, (m.fresh before after).size) := by
  have hn : (listed.map (·.1)).Nodup := (h.map _).nodup_iff.mpr (after.unitsOf m.application).keys_nodup
  have hf : (listed.filter (m.isNew before)).Perm (m.fresh before after).entries := h.filter _
  rw [foldl_takeUp hn, track_eq_of_perm hf (hn.sublist (List.filter_sublist.map _)), hf.length_eq, Nat.zero_add]
  rfl

/-! ## The outcome -/

/-- The unit has come up between the snapshots with that status, and has not been tracked. -/
def ComesUp (m : Manager) (before after : Snapshot) (id : String) (status : UnitStatus) : Prop :=
  after.unit? m.application id = some status ∧ before.lists m.application id = false ∧ m.unit? id = none

/-- What a request for more units has made of a manager, unit by unit. -/
structure Growth (m : Manager) (before after : Snapshot) (t : Manager) : Prop where
  added : ∀ id status, m.ComesUp before after id status →
    t.unit? id = some { externalId := id, phase := .creating, identity := "", status }
  kept : ∀ id, (∀ status, ¬ m.ComesUp before after id status) → t.unit? id = m.unit? id
  unchanged : t = { m with units := t.units }

theorem get?_fresh_eq_some_iff {id : String} {status : UnitStatus} :
    (m.fresh before after).get? id = some status ↔ m.ComesUp before after id status := by
  rw [get?_fresh, Option.filter_eq_some_iff]
  simp [ComesUp, unit?, Snapshot.unit?, Table.contains]

theorem growth_track (m : Manager) (before after : Snapshot) :
    m.Growth before after (m.track (m.fresh before after).entries) where
  added id status h := by
    rw [unit?, get?_units_track, get?_fresh_eq_some_iff.mpr h]
    rfl
  kept id h := by
    have hf : (m.fresh before after).get? id = none :=
      Option.eq_none_iff_forall_ne_some.mpr fun status hs => h status (get?_fresh_eq_some_iff.mp hs)
    rw [unit?, get?_units_track, hf]
    rfl
  unchanged := rfl

/-- What is told of the growth leaves nothing open. -/
theorem Growth.unique {t' : Manager} (h : m.Growth before after t) (h' : m.Growth before after t') : t = t' := by
  have hu : t.units = t'.units := by
    refine Table.ext_get? fun id => ?_
    by_cases hc : ∃ status, m.ComesUp before after id status
    · obtain ⟨status, hc⟩ := hc
      exact (h.added id status hc).trans (h'.added id status hc).symm
    · rw [not_exists] at hc
      exact (h.kept id hc).trans (h'.kept id hc).symm
  rw [h.unchanged, h'.unchanged, hu]

theorem size_track_fresh : (m.track (m.fresh before after).entries).size = m.size + (m.fresh before after).size := by
  refine Table.size_foldl_insert (fun id status => ({ externalId := id, phase := .creating, status } : TrackedUnit))
    (m.fresh before after).keys_nodup fun e he => ?_
  have hc : (m.fresh before after).contains e.1 = true := Table.mem_keys_iff.mp (List.mem_map_of_mem he)
  exact (contains_fresh_iff.mp hc).2.2

/-- The calls of a request for more units that have all been answered. -/
def growthCalls (m : Manager) (count : Nat) (before : Snapshot) (names : List String) (after : Snapshot) :
    List (Event Unit) :=
  [.answered () (.status [m.application]) before, .answered () (.addUnits m.application count) names,
    .answered () (.status [m.application]) after]

/-- What happens when the calls are answered. -/
def growthEvents (m : Manager) (count : Nat) (before : Snapshot) (names : List String) (after : Snapshot) (found : Nat) :
    List (Event Unit) :=
  m.growthCalls count before names after ++
    if found < count then [.warn (.fewerUnits m.application count found)] else []

theorem calls_growthEvents {names : List String} :
    calls (m.growthEvents count before names after n) = m.growthCalls count before names after := by
  rw [growthEvents, calls_append]
  split <;> rfl

theorem ends_growth {names : List String} (hc : count ≠ 0) :
    (m.scaleUp count).Ends (m.growthEvents count before names after (m.fresh before after).size)
      (m.track (m.fresh before after).entries) (some (.ok ())) := by
  have h := ends_scaleUp.mpr (@ScalesUp.grown m count before names after hc)
  rwa [apply_ite (List.map Event.warn)] at h

theorem ScalesUp.of_answered (h : ScalesUp m count es m' v) (hc : count ≠ 0) (hf : ∀ r e, .failed () r e ∉ es) :
    ∃ before names after, es = m.growthEvents count before names after (m.fresh before after).size ∧
      m' = m.track (m.fresh before after).entries ∧ v = some (.ok ()) := by
  by_cases hv : v = some (.ok ())
  · subst hv
    obtain ⟨before, names, after, rfl, rfl⟩ := h.ok hc
    refine ⟨before, names, after, ?_, rfl, rfl⟩
    rw [apply_ite (List.map Event.warn)]
    rfl
  · obtain ⟨r, e, he⟩ := h.exists_failed hv
    exact absurd he (hf r e)

theorem failed_notMem_of_growthCalls {names : List String} (h : calls es = m.growthCalls count before names after)
    (r : Fleet.Request) (e : Option Fleet.Error) : .failed () r e ∉ es := by
  intro he
  have hm : .failed () r e ∈ m.growthCalls count before names after := h ▸ List.mem_filter.mpr ⟨he, rfl⟩
  simp only [growthCalls, List.mem_cons, List.not_mem_nil, or_false] at hm
  rcases hm with hm | hm | hm <;> cases e <;> cases hm

/-- A request for more units, all of whose calls are answered, looks at the status, asks for the units and looks again. Then
it has succeeded. The manager that it leaves and the number of units it has found depend on the two snapshots only, and not
on the order in which the listed units are looked at. That manager is the only one of which the growth can be told, and is
larger by the number of units found. There is a warning of that number just if it is less than what was asked for. -/
theorem scaleUp_outcome (m : Manager) (hc : 0 < count) :
    (∀ es t v, (m.scaleUp count).Ends es t v → (∀ r e, .failed () r e ∉ es) →
      ∃ before names after, calls es = m.growthCalls count before names after) ∧
    ∀ before after, ∃ m' n,
      (∀ names es t v, (m.scaleUp count).Ends es t v ∧ calls es = m.growthCalls count before names after ↔
        es = m.growthEvents count before names after n ∧ t = m' ∧ v = some (.ok ())) ∧
      (∀ listed : List (String × UnitStatus), listed.Perm (after.unitsOf m.application).entries →
        listed.foldl (takeUp before) (m, 0) = (m', n)) ∧
      (∀ t, m.Growth before after t ↔ t = m') ∧ m'.size = m.size + n := by
  have hn : count ≠ 0 := Nat.pos_iff_ne_zero.mp hc
  refine ⟨fun es t v h hf => ?_, fun before after => ?_⟩
  · obtain ⟨before, names, after, rfl, -⟩ := (ends_scaleUp.mp h).of_answered hn hf
    exact ⟨before, names, after, calls_growthEvents⟩
  · refine ⟨m.track (m.fresh before after).entries, (m.fresh before after).size, fun names es t v => ?_,
      fun listed => foldl_takeUp_of_perm, fun t => ⟨(·.unique (growth_track m before after)), ?_⟩, size_track_fresh⟩
    · constructor
      · rintro ⟨h, hes⟩
        obtain ⟨before', names', after', rfl, rfl, rfl⟩ :=
          (ends_scaleUp.mp h).of_answered hn (failed_notMem_of_growthCalls hes)
        cases calls_growthEvents.symm.trans hes
        exact ⟨rfl, rfl, rfl⟩
      · rintro ⟨rfl, rfl, rfl⟩
        exact ⟨ends_growth hn, calls_growthEvents⟩
    · rintro rfl
      exact growth_track m before after

/-- A manager of two units, which has retired another. -/
def outpaced : Manager :=
  { ofSnapshot .hostname "m" "app" (listing [("app/0", "n0"), ("app/3", "n3")]) with retired := .ofList [("app/9", ())] }

/-- Three units are asked for while one has come up already and a tracked one goes. Of those that come up then, one is tracked
and one is retired. -/
theorem scaleUp_outcome_outpaced :
    let before := listing [("app/0", "n0"), ("app/2", "n2")]
    let after := listing [("app/1", "n1"), ("app/2", "n2"), ("app/3", "n3"), ("app/9", "n9")]
    ∃ m', m'.units.keys = ["app/0", "app/1", "app/3", "app/9"] ∧
      (outpaced.scaleUp 3).Ends
        [.answered () (.status ["app"]) before, .answered () (.addUnits "app" 3) ["app/7"],
          .answered () (.status ["app"]) after, .warn (.fewerUnits "app" 3 2)] m' (some (.ok ())) := by
  intro before after
  obtain ⟨m', n, he, ho, -, -⟩ := (scaleUp_outcome outpaced (show 0 < 3 by decide)).2 before after
  obtain ⟨rfl, rfl⟩ := Prod.mk.inj (ho _ (.refl _)).symm
  exact ⟨_, by decide, ((he ["app/7"] _ _ _).mpr ⟨rfl, rfl, rfl⟩).1⟩

end NodeGroups.Manager
