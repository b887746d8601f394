import NodeGroups.Proofs.Fleet.Reordering
import NodeGroups.Proofs.Manager.Staying

/-!
# Polling again

A manager is in line with a snapshot if there is nothing left to take over from it. A start brings a manager in line with the
snapshot it is set up from, and so does a reconciliation, in whatever order it looks at the units. Then further
reconciliations with the snapshot change nothing, even if its machines come in another order. Main statement:
`polling_settles`.
-/

namespace NodeGroups
open Fleet (IdentitySource Snapshot UnitStatus)

namespace TrackedUnit

/-- The unit is known with this status, and with the name that the snapshot has for it unless another was known. -/
def Matches (u : TrackedUnit) (source : IdentitySource) (s : Snapshot) (st : UnitStatus) : Prop :=
  (u.resolve (source.resolve s st)).observe st = u

theorem resolve_resolve (u : TrackedUnit) (name : Option String) : (u.resolve name).resolve name = u.resolve name := by
  unfold resolve
  by_cases h : u.isResolved = true
  · simp only [if_pos h]
  · simp only [if_neg h]
    split <;> rfl

theorem observe_observe (u : TrackedUnit) (st : UnitStatus) : (u.observe st).observe st = u.observe st := by
  unfold observe
  by_cases h : (decide (u.phase = .creating) && st.isReady) = true
  · simp [h]
  · simp [h]

/-- It does not matter whether the name or the status of a unit is taken over first. -/
theorem resolve_observe (u : TrackedUnit) (name : Option String) (st : UnitStatus) :
    (u.observe st).resolve name = (u.resolve name).observe st := by
  unfold resolve observe isResolved
  dsimp only
  split <;> rfl

theorem matches_observe_resolve (u : TrackedUnit) (source : IdentitySource) (s : Snapshot) (st : UnitStatus) :
    ((u.resolve (source.resolve s st)).observe st).Matches source s st := by
  rw [Matches, resolve_observe, resolve_resolve, observe_observe]

/-- A unit that is taken up from a snapshot matches it, unless it would start to run at once. -/
theorem matches_new {source : IdentitySource} {s : Snapshot} {st : UnitStatus} {id : String} {phase : Phase}
    (h : ¬ (phase = .creating ∧ st.isReady = true)) :
    Matches { externalId := id, phase, identity := (source.resolve s st).getD "", status := st } source s st := by
  have hr (u : TrackedUnit) (name : Option String) (hu : u.identity = name.getD "") : u.resolve name = u := by
    rw [resolve, ← hu, ite_self]
  rw [Matches, hr _ _ rfl, observe]
  simp [h]

/-- Of the name that a snapshot has for a unit it only matters whether there is one. -/
theorem Matches.of_isSome_eq {u : TrackedUnit} {source : IdentitySource} {s s' : Snapshot} {st : UnitStatus}
    (h : u.Matches source s st) (he : (source.resolve s' st).isSome = (source.resolve s st).isSome) :
    u.Matches source s' st := by
  by_cases hr : u.isResolved = true
  · simpa only [Matches, resolve, if_pos hr] using h
  · have hn : source.resolve s st = none := by
      cases hn : source.resolve s st with
      | none => rfl
      | some name =>
          have hi : u.identity = name := by
            rw [← h, observe, identity_resolve, if_neg hr, hn, Option.getD_some]
          have hu : u.isResolved = false := by simpa using hr
          obtain ⟨-, -, hne⟩ := Fleet.resolve_eq_some_iff.mp hn
          simp [isResolved, hi, hne] at hu
    have hn' : source.resolve s' st = none := by
      rw [hn] at he
      simpa using he
    rwa [Matches, hn', ← hn]

end TrackedUnit

namespace Manager
open Operation

variable {m m' : Manager} {s : Snapshot} {id : String} {u : TrackedUnit} {st : UnitStatus}

/-! ## Managers in line with a snapshot -/

/-- There is nothing to take over from the snapshot. -/
structure InLine (m : Manager) (s : Snapshot) : Prop where
  tracked : ∀ id u, m.units.get? id = some u →
    u.phase ≠ .deleting ∧ ∃ st, s.unit? m.application id = some st ∧ u.Matches m.source s st
  untracked : ∀ id st, m.units.get? id = none → s.unit? m.application id = some st →
    m.retired.contains id = true ∨ st.isReady = false
  retired : ∀ id, m.retired.contains id = true → s.lists m.application id = true

theorem InLine.reconciled_eq_self (h : m.InLine s) : m.reconciled s = m := by
  have hu : (m.reconciled s).units = m.units := by
    refine Table.ext_get? fun j => ?_
    rw [get?_units_reconciled]
    cases hj : m.units.get? j with
    | some u =>
        obtain ⟨hp, st, hst, hm⟩ := h.tracked j u hj
        rw [Snapshot.unit?] at hst
        rw [TrackedUnit.Matches] at hm
        simp [hst, observed, hj, hm, Option.filter, hp]
    | none =>
        cases hst : (s.unitsOf m.application).get? j with
        | none => rfl
        | some st => rcases h.untracked j st hj hst with hr | hr <;> simp [observed, hj, hr, Option.filter]
  have hr : (m.reconciled s).retired = m.retired := by
    refine Table.ext_contains fun j => ?_
    rw [contains_retired_reconciled]
    constructor
    · rintro ⟨-, hj | ⟨u, hu, hp⟩⟩
      · exact hj
      · exact absurd hp (h.tracked j u hu).1
    · intro hj
      exact ⟨h.retired j hj, .inl hj⟩
  rw [reconciled_eq, hu, hr]

theorem InLine.of_repeats {s' : Snapshot} (h : m.InLine s) (hr : m.source.Repeats s s') : m.InLine s' := by
  have hu (app : String) : s'.unitsOf app = s.unitsOf app := by
    simp only [Snapshot.unitsOf, Snapshot.unitsOf?, hr.applications_eq]
  exact {
    tracked := fun id u hid => by
      obtain ⟨hp, st, hst, hm⟩ := h.tracked id u hid
      rw [Snapshot.unit?, hu]
      exact ⟨hp, st, hst, hm.of_isSome_eq (hr.isSome_resolve_eq st)⟩
    untracked := fun id st hid hst => by
      rw [Snapshot.unit?, hu] at hst
      exact h.untracked id st hid hst
    retired := fun id hid => by
      rw [Snapshot.lists, hu]
      exact h.retired id hid }

/-! ## What brings a manager in line -/

theorem matches_of_observed (h : m.observed s id st = some u) : u.Matches m.source s st := by
  unfold observed at h
  split at h
  · cases h
    exact TrackedUnit.matches_observe_resolve ..
  · split at h
    · cases h
    · cases h
      exact TrackedUnit.matches_new (by simp)

/-- A listed unit that is not tracked after a reconciliation is retired, or has not been taken up. -/
theorem retired_or_unready (hu : (m.reconciled s).units.get? id = none) (hst : s.unit? m.application id = some st) :
    (m.reconciled s).retired.contains id = true ∨ st.isReady = false := by
  have hl : s.lists m.application id = true := Table.contains_iff.mpr ⟨st, hst⟩
  rw [Snapshot.unit?] at hst
  rw [get?_units_reconciled, hst, Option.bind_some] at hu
  rw [contains_retired_reconciled, and_iff_right hl]
  cases ho : m.observed s id st with
  | some u =>
      rw [ho] at hu
      have hp : u.phase = .deleting := by simpa [Option.filter] using hu
      exact .inl (.inr (observed_deleting_iff.mp ⟨u, ho, hp⟩))
  | none =>
      unfold observed at ho
      split at ho
      · cases ho
      · split at ho
        · next hr =>
          rw [Bool.or_eq_true, Bool.not_eq_true'] at hr
          exact hr.imp_left .inl
        · cases ho

theorem inLine_reconciled (m : Manager) (s : Snapshot) : (m.reconciled s).InLine s where
  tracked id u hu := by
    rw [get?_units_reconciled, Option.bind_eq_some_iff] at hu
    obtain ⟨st, hst, hf⟩ := hu
    obtain ⟨ho, hp⟩ := Option.filter_eq_some_iff.mp hf
    rw [application_reconciled, source_reconciled]
    exact ⟨by simpa using hp, st, hst, matches_of_observed ho⟩
  untracked id st hu hst := by
    rw [application_reconciled] at hst
    exact retired_or_unready hu hst
  retired id hr := by
    rw [application_reconciled]
    exact (contains_retired_reconciled.mp hr).1

theorem inLine_ofSnapshot (source : IdentitySource) (model app : String) (s : Snapshot) :
    (ofSnapshot source model app s).InLine s where
  tracked id u hu := by
    refine ⟨fun hp => not_deleting_ofSnapshot ⟨u, hu, hp⟩, ?_⟩
    simp only [ofSnapshot, Table.get?_map, Option.map_eq_some_iff] at hu
    obtain ⟨st, hst, rfl⟩ := hu
    refine ⟨st, hst, TrackedUnit.matches_new ?_⟩
    rintro ⟨hp, hr⟩
    simp [Phase.observed, hr] at hp
  untracked id st hu hst := by
    have hl : (ofSnapshot source model app s).Staying id :=
      staying_ofSnapshot.mpr (Table.contains_iff.mpr ⟨st, hst⟩)
    obtain ⟨u, hs, -⟩ := hl
    cases hu.symm.trans hs
  retired id hr := by cases hr

/-! ## Polls -/

/-- The turn is a reconciliation that gets the snapshot. -/
def Polls (s : Snapshot) (d : Turn) : Prop := d.command = .reconcile ∧ fetched d.events = [s]

theorem Polls.after_eq {d : Turn} (h : Polls s d) (he : (act d.command d.before).Ends d.events d.after d.value) :
    d.after = d.before.reconciled s ∧ d.value = some (.ok ()) := by
  obtain ⟨c, m, es, m', v⟩ := d
  obtain ⟨rfl, hs⟩ := h
  replace he : m.reconcile.Ends es m' v := he
  cases ends_reconcile.mp he with
  | @unseen e => cases e <;> cases hs
  | seen =>
      cases hs
      exact ⟨rfl, rfl⟩

/-- Each turn is a reconciliation that gets the snapshot once more. -/
theorem InLine.of_polls {steps : List Turn} (h : m.InLine s) (hs : Session act m steps m')
    (hp : ∀ d ∈ steps, ∃ s', m.source.Repeats s s' ∧ Polls s' d) :
    m' = m ∧ ∀ d ∈ steps, d.after = m ∧ d.value = some (.ok ()) := by
  induction hs with
  | idle => exact ⟨rfl, by simp⟩
  | step _ he ih =>
      rw [List.forall_mem_append, List.forall_mem_singleton] at hp
      obtain ⟨rfl, hd⟩ := ih hp.1
      obtain ⟨s', hr, hps⟩ := hp.2
      obtain ⟨ha, hv⟩ := hps.after_eq he
      dsimp only at ha hv
      rw [(h.of_repeats hr).reconciled_eq_self] at ha
      exact ⟨ha, List.forall_mem_append.mpr ⟨hd, List.forall_mem_singleton.mpr ⟨ha, hv⟩⟩⟩

theorem inLine_of_init {source : IdentitySource} {model app : String} {es : List (Event Unit)}
    (h : (init source model app).Ends es () (some (.ok m))) (hs : fetched es = [s]) : m.InLine s := by
  rcases ends_call.mp h with ⟨-, -, hv⟩ | ⟨o, es', rfl, h'⟩
  · cases hv
  · cases o with
    | error e => cases (ends_done.mp h').2.2
    | ok s' =>
        obtain ⟨rfl, -, hv⟩ := ends_done.mp h'
        cases hs
        cases hv
        exact inLine_ofSnapshot ..

/-- Reconciliations in a row that all get the same snapshot leave what the first of them does, and whatever the order in
which they look at the units. They change nothing if the manager was set up from that snapshot. The machines may come in
another order each time, as long as all that may be found under one id have names or none of them has. -/
theorem polling_settles (m : Manager) (s : Snapshot) :
    (∀ d steps m', Session act m (d :: steps) m' → Polls s d →
      (∀ e ∈ steps, ∃ s', m.source.Repeats s s' ∧ Polls s' e) →
        ∀ e ∈ d :: steps, e.after = m.reconciled s ∧ e.value = some (.ok ())) ∧
    (∀ (s' : Snapshot) (listed listed' : List (String × UnitStatus)), m.source.Repeats s s' →
      listed.Perm (s.unitsOf m.application).entries → listed'.Perm (s'.unitsOf m.application).entries →
        (m.reconciledBy s listed).reconciledBy s' listed' = m.reconciledBy s listed) ∧
    ∀ source model app es, (init source model app).Ends es () (some (.ok m)) → fetched es = [s] →
      ∀ s', m.source.Repeats s s' → m.reconciled s' = m := by
  have hi := inLine_reconciled m s
  refine ⟨fun d steps m' h hd hp => ?_, fun s' listed listed' hr hl hl' => ?_, fun _ _ _ _ h hs s' hr => ?_⟩
  · obtain ⟨hb, he, h'⟩ := h.head
    obtain ⟨ha, hv⟩ := hd.after_eq he
    rw [hb] at ha
    rw [ha] at h'
    refine List.forall_mem_cons.mpr ⟨⟨ha, hv⟩, (hi.of_polls h' ?_).2⟩
    rwa [source_reconciled]
  · rw [reconciledBy_eq_reconciled hl]
    rw [← application_reconciled (s := s)] at hl'
    rw [← source_reconciled (s := s)] at hr
    rw [reconciledBy_eq_reconciled hl', (hi.of_repeats hr).reconciled_eq_self]
  · exact ((inLine_of_init h hs).of_repeats hr).reconciled_eq_self

/-- A snapshot of two ready units, one that is not ready, and two that have been asked to be removed. On each of the machines
there is a container under the id of the first unit. -/
def crowd (machines : List (String × Fleet.Machine)) : Snapshot where
  applications := .ofList [("app", .ofList [
    ("app/0", { agent := { current := "idle" }, workload := { current := "active" }, machine := "lxd" }),
    ("app/1", { agent := { current := "idle" }, workload := { current := "active" }, machine := "1" }),
    ("app/2", { agent := { current := "allocating" }, workload := { current := "waiting" } }),
    ("app/3", { agent := { current := "idle" }, workload := { current := "active" }, machine := "3" }),
    ("app/4", { agent := { current := "idle" }, workload := { current := "active" }, machine := "4" })])]
  machines

def hosts : List (String × Fleet.Machine) :=
  [("0", { hostname := "n0", containers := [("lxd", { hostname := "c0" })] }),
    ("1", { hostname := "n1", containers := [("lxd", { hostname := "c1" })] })]

theorem hostname_ne_of_standsUnder {m : Fleet.Machine} (h : m.StandsUnder id hosts) : m.hostname ≠ "" := by
  cases h with
  | here hm => rcases List.mem_pair.mp hm with hm | hm <;> cases hm <;> decide
  | @inside _ _ host hk h =>
      -- the containers hold nothing more
      have hc : ∀ e ∈ host.containers, e.2.hostname ≠ "" ∧ e.2.containers = [] := by
        rcases List.mem_pair.mp hk with hk | hk <;> cases hk <;> simp
      cases h with
      | here hm => exact (hc _ hm).1
      | inside hk h =>
          rw [(hc _ hk).2] at h
          cases h with
          | here hm => cases hm
          | inside hk => cases hk

/-- A manager that knows one of the ready units without its name, and one that is gone. Of the units to be removed one is
marked and the other is retired. -/
def behind : Manager where
  source := .hostname
  model := "m"
  application := "app"
  units := .ofList [
    ("app/0", { externalId := "app/0", phase := .creating, status := {} }),
    ("app/3", { externalId := "app/3", phase := .deleting, identity := "n3", status := {} }),
    ("app/9", { externalId := "app/9", phase := .running, identity := "n9", status := {} })]
  retired := .ofList [("app/4", ())]

/-- The machines come in the opposite order the second time. -/
def catchingUp : List Turn × Manager :=
  play act Fleet.Script.one
    { status := [{ outcome := some (.ok (crowd hosts)) }, { outcome := some (.ok (crowd hosts.reverse)) }] } behind
    [.reconcile, .reconcile]

/-- The first unit has its name from the first machine, and keeps it though the search now comes to the second. -/
theorem polling_settles_behind :
    catchingUp.1.map (fun d => (d.after.units.keys, d.after.retired.keys)) =
        [(["app/0", "app/1"], ["app/3", "app/4"]), (["app/0", "app/1"], ["app/3", "app/4"])] ∧
      [hosts, hosts.reverse].map (fun ms => behind.source.resolve (crowd ms) { machine := "lxd" }) = [some "c0", some "c1"] ∧
      ∀ d ∈ catchingUp.1, d.after = behind.reconciled (crowd hosts) := by
  have h : Session act behind catchingUp.1 catchingUp.2 := session_play ..
  have hr : behind.source.Repeats (crowd hosts) (crowd hosts.reverse) :=
    .inr ⟨⟨rfl, .swap⟩, fun id m m' hm _ hn => absurd hn (hostname_ne_of_standsUnder hm.standsUnder)⟩
  refine ⟨by decide, by decide, fun d hd => ((polling_settles behind (crowd hosts)).1 _ _ _ h ⟨rfl, rfl⟩ ?_ d hd).1⟩
  exact List.forall_mem_singleton.mpr ⟨_, hr, rfl, rfl⟩

end Manager
end NodeGroups
