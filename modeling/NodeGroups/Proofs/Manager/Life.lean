import NodeGroups.Proofs.Agreement
import NodeGroups.Proofs.Manager.Names

/-!
# Managers and stand-ins

A manager starts and then carries out commands. In all of this it looks at the statuses of the fleet only, so it lives the
same life with a fleet that stands in for another. The units may be gone over in another order as long as no two of them
have one name. Main statements: `live_of_standsIn` and `wants_of_live`.
-/

namespace NodeGroups.Manager
open Fleet (IdentitySource Request Snapshot)
open Operation

variable {φ ψ : Type} {source : IdentitySource} {model application : String} {m m' : Manager}

/-! ## Operations -/

theorem agree_fetch {α : Type} {next next' : Snapshot → Op α} (h : ∀ s, Agree (next s) (next' s)) :
    Agree (m.fetch next) (m.fetch next') := by
  refine .call fun o o' hs => ?_
  cases o <;> cases o' <;> cases hs
  · exact .done
  · exact h _

theorem agree_follow (i : Instruction) (m : Manager) : Agree (follow i m) (follow i m) := by
  obtain ⟨c, scan⟩ := i
  cases c with
  | scaleUp count =>
      simp only [follow, scaleUp]
      split
      · exact .done
      · refine agree_fetch fun before => .call fun o o' hs => ?_
        cases o <;> cases o' <;> cases hs
        · exact .done
        · exact agree_fetch fun after => Agree.done.warnAll ..
  | scaleDown node =>
      simp only [follow, scaleDownIn]
      split
      · exact .done
      · refine .call fun o o' hs => ?_
        cases o <;> cases o' <;> cases hs
        · exact .done
        · exact Agree.done.warnAll ..
  | reconcile => exact agree_fetch fun _ => .done

theorem agree_init : Agree (init source model application) (init source model application) := by
  refine .call fun o o' hs => ?_
  cases o <;> cases o' <;> cases hs <;> exact .done

theorem application_of_init {es : List (Event Unit)}
    (h : (init source model application).Ends es () (some (.ok m))) : m.application = application := by
  rcases ends_call.mp h with ⟨-, -, hv⟩ | ⟨o, es', rfl, h'⟩
  · cases hv
  · cases o with
    | error e => cases (ends_done.mp h').2.2
    | ok s =>
        cases (ends_done.mp h').2.2
        rfl

/-! ## Requests -/

/-- What a manager of the application asks for. -/
inductive Wants (application : String) : Request → Prop
  | status : Wants application (.status [application])
  | addUnits (count : Nat) : Wants application (.addUnits application count)
  | destroyUnits (id : String) : Wants application (.destroyUnits [id] false false)

theorem requests_fetch {α : Type} {next : Snapshot → Op α} (h : ∀ s, (next s).Requests (Wants m.application)) :
    (m.fetch next).Requests (Wants m.application) := by
  refine ⟨.status, fun o => ?_⟩
  cases o with
  | error => trivial
  | ok s => exact h s

theorem requests_follow (i : Instruction) (m : Manager) : (follow i m).Requests (Wants m.application) := by
  obtain ⟨c, scan⟩ := i
  cases c with
  | scaleUp count =>
      simp only [follow, scaleUp]
      split
      · trivial
      · refine requests_fetch fun before => ⟨.addUnits count, fun o => ?_⟩
        cases o with
        | error => trivial
        | ok => exact requests_fetch fun after => (Requests.of_done ..).warnAll _
  | scaleDown node =>
      simp only [follow, scaleDownIn]
      split
      · trivial
      · refine ⟨.destroyUnits _, fun o => ?_⟩
        cases o with
        | error => trivial
        | ok => exact (Requests.of_done ..).warnAll _
  | reconcile => exact requests_fetch fun _ => trivial

theorem requests_init : (init source model application).Requests (Wants application) := by
  refine ⟨.status, fun o => ?_⟩
  cases o <;> trivial

theorem application_of_follow {i : Instruction} {es : List (Event Unit)} {v : Option (Except Error Unit)}
    (h : (follow i m).Ends es m' v) : m'.application = m.application := by
  obtain ⟨c, scan⟩ := i
  cases c with
  | scaleUp count => cases ends_scaleUp.mp h <;> rfl
  | scaleDown node => cases ends_scaleDownIn.mp h <;> rfl
  | reconcile =>
      cases ends_reconcile.mp h with
      | unseen => rfl
      | seen => exact application_reconciled

theorem wants_of_session {turns : List ScanTurn} {r : Request} {o : Option (Fleet.Outcome r)}
    (h : Session follow m turns m') (hc : .call () r o ∈ eventsOf turns) : Wants m.application r := by
  induction h with
  | idle => cases hc
  | @step turns s t i es v hs he ih =>
      rw [eventsOf, List.flatMap_append, List.flatMap_singleton, List.mem_append] at hc
      rcases hc with hc | hc
      · exact ih hc
      · have ha : s.application = m.application :=
          hs.preserves (p := fun s => s.application = m.application) rfl
            fun _ _ _ _ _ he ha => (application_of_follow he).trans ha
        rw [← ha]
        exact (requests_follow i s).of_ends he hc

/-! ## Lives -/

/-- How a manager has started, what it has done since, and in which condition the fleet is left. -/
structure Life (φ : Type) where
  fleets : φ
  start : Option (Except Error Manager)
  turns : List ScanTurn
  /-- What has happened in all of this. -/
  events : List (Event Unit)

/-- Starts a manager and has it follow instructions. -/
def live (source : IdentitySource) (model application : String) (is : List Instruction) (reply : Fleets φ Unit) (fleets : φ) :
    Life φ :=
  let r := (init source model application).run reply fleets
  match r.value with
  | some (.ok m) =>
      let turns := (play follow reply r.fleets m is).1
      { fleets := leave follow reply r.fleets m is, start := r.value, turns
        events := r.events.filter (!·.isLate) ++ eventsOf turns }
  | v => { fleets := r.fleets, start := v, turns := [], events := r.events.filter (!·.isLate) }

variable {is js : List Instruction} {reply : Fleets φ Unit} {reply' : Fleets ψ Unit} {fleets : φ} {fleets' rest : ψ}

theorem live_of_ok (hv : ((init source model application).run reply fleets).value = some (.ok m)) :
    live source model application is reply fleets =
      let r := (init source model application).run reply fleets
      let turns := (play follow reply r.fleets m is).1
      { fleets := leave follow reply r.fleets m is, start := some (.ok m), turns
        events := r.events.filter (!·.isLate) ++ eventsOf turns } := by
  simp only [live, hv]

theorem live_of_not_ok (hv : ∀ m, ((init source model application).run reply fleets).value ≠ some (.ok m)) :
    live source model application is reply fleets =
      let r := (init source model application).run reply fleets
      { fleets := r.fleets, start := r.value, turns := [], events := r.events.filter (!·.isLate) } := by
  rw [live]
  split
  · next m hm => exact absurd hm (hv m)
  · rfl

theorem replies_live (source : IdentitySource) (model application : String) (is : List Instruction) (reply : Fleets φ Unit)
    (fleets : φ) :
    Replies reply fleets (live source model application is reply fleets).events
      (live source model application is reply fleets).fleets := by
  have hi := replies_run reply (init source model application) fleets
  by_cases hv : ∃ m, ((init source model application).run reply fleets).value = some (.ok m)
  · obtain ⟨m, hv⟩ := hv
    rw [live_of_ok hv]
    exact hi.trans (replies_play ..)
  · rw [live_of_not_ok (not_exists.mp hv)]
    exact hi

/-- The turns that a manager has taken would go the same with these instructions. -/
def Life.Matches (l : Life φ) (js : List Instruction) : Prop :=
  ∀ m, l.start = some (.ok m) → List.Forall₂ (fun d j => d.command.Matches d.before j) l.turns js

/-- With stand-ins a manager lives the same life. -/
theorem live_of_standsIn
    (h : StandsIn reply' fleets' (calls (live source model application is reply fleets).events) rest)
    (hm : (live source model application is reply fleets).Matches js) :
    let l := live source model application is reply fleets
    let l' := live source model application js reply' fleets'
    l'.start = l.start ∧ List.Forall₂ (Step.Accords fun d j => d.command.Matches d.before j) l.turns l'.turns ∧
      l'.fleets = rest := by
  intro l l'
  have ha : ∀ (d : ScanTurn) (j : Instruction), d.command.Matches d.before j →
      Agree (follow d.command d.before) (follow j d.before) := by
    intro d j hj
    rw [hj.follow_eq]
    exact agree_follow ..
  by_cases hv : ∃ m, ((init source model application).run reply fleets).value = some (.ok m)
  · obtain ⟨m, hv⟩ := hv
    rw [live_of_ok hv] at hm
    rw [live_of_ok hv, calls_append, calls_filter_isLate] at h
    obtain ⟨-, hw, hs⟩ := agree_init.run h
    rw [← List.append_nil (calls (eventsOf _))] at hs
    obtain ⟨ht, hl⟩ := play_of_standsIn ha (hm m rfl) hs
    simp only [l, l', live_of_ok hv, live_of_ok (hw.trans hv)]
    exact ⟨trivial, ht, hl.eq_of_nil⟩
  · replace hv := not_exists.mp hv
    rw [live_of_not_ok hv, calls_filter_isLate, ← List.append_nil (calls _)] at h
    obtain ⟨-, hw, hs⟩ := agree_init.run h
    simp only [l, l', live_of_not_ok hv, live_of_not_ok (hw ▸ hv)]
    exact ⟨hw, .nil, hs.eq_of_nil⟩

theorem wants_of_live {r : Request} {o : Option (Fleet.Outcome r)}
    (hc : .call () r o ∈ (live source model application is reply fleets).events) : Wants application r := by
  have hi := Ends.of_run reply fleets (init source model application)
  by_cases hv : ∃ m, ((init source model application).run reply fleets).value = some (.ok m)
  · obtain ⟨m, hv⟩ := hv
    rw [live_of_ok hv] at hc
    rcases List.mem_append.mp hc with hc | hc
    · exact requests_init.of_ends hi hc
    · rw [hv] at hi
      rw [← application_of_init hi]
      exact wants_of_session (session_play ..) hc
  · rw [live_of_not_ok (not_exists.mp hv)] at hc
    exact requests_init.of_ends hi hc

end NodeGroups.Manager
