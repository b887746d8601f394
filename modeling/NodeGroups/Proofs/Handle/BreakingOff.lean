import NodeGroups.Proofs.Group.Failures
import NodeGroups.Proofs.Handle.Calls
import NodeGroups.Proofs.Provider.Removals

/-!
# Jobs that break off

A job that breaks off in a call leaves what it would leave if the call failed, and jobs after it go on from there. Only a
refresh of all groups is different, since it goes on after a failure. Main statement: `call_of_brokenOff`.
-/

namespace NodeGroups
open Operation

/-! ## Failures of a provider -/

namespace Provider

variable {α : Type} {es : List (Event Nat)} {q : Provider}

theorem failsFast_onGroup {f : Group → Group.Op α} (h : ∀ g, (f g).FailsFast Group.relayed) (p : Provider) (id : String) :
    (p.onGroup id f).FailsFast Group.relayed := by
  unfold onGroup
  split
  · exact (h _).within
  · exact .of_done ..

theorem length_concat_add (before done : List Group) (g g' : Group) :
    (before ++ [g']).length + done.length = before.length + (g :: done).length := by
  simp only [List.length_append, List.length_cons, List.length_nil]
  omega

/-- A refresh that breaks off has gone through the groups before one, and changes nothing behind them. -/
theorem RefreshesFrom.exists_of_none {before rest : List Group} {failure : Option Error}
    (h : RefreshesFrom before failure rest es q none) :
    ∃ done g later done' es₁ v, rest = done ++ g :: later ∧
      es = es₁ ++ [.call (before.length + done.length) (.status [g.manager.application]) none] ∧
      q.groups = done' ++ g :: later ∧ RefreshesFrom before failure done es₁ ⟨done'⟩ (some v) := by
  -- by groups: each that is done moves from `rest` to the end of `before`, whether it has failed or not
  generalize hv : none = v at h
  induction h with
  | done => cases hv
  | @brokenOff before _ g rest => exact ⟨[], g, rest, before, [], _, rfl, rfl, rfl, .done⟩
  | @failed before _ g _ e _ _ _ _ ih =>
      obtain ⟨done, g', later, done', es₁, v, rfl, rfl, hq, h⟩ := ih hv
      rw [length_concat_add before done g]
      exact ⟨g :: done, g', later, done', _, v, rfl, rfl, hq, .failed h⟩
  | @renewed before _ g _ s _ _ _ _ ih =>
      obtain ⟨done, g', later, done', es₁, v, rfl, rfl, hq, h⟩ := ih hv
      rw [length_concat_add before done g]
      exact ⟨g :: done, g', later, done', _, v, rfl, rfl, hq, .renewed h⟩

end Provider

namespace Job

variable {j : Job} {p q : Provider} {es : List (Event Nat)}

theorem failsFast_change {f : Group → Group.Op Unit} (h : ∀ g, (f g).FailsFast Group.relayed) (p : Provider) (id : String) :
    (Api.change p id f).FailsFast Group.relayed := by
  refine Provider.failsFast_onGroup (fun g => ?_) p id
  refine FailsFast.bindIn (fun g e => ?_) (fun g result => ?_) _ (h g)
  · rfl
  · exact .of_done ..

theorem failsFast_op (h : j.isRefresh = false) (p : Provider) : (j.op p).FailsFast Group.relayed := by
  cases j with
  | refresh => cases h
  | request action =>
      cases action with
      | refresh => cases h
      | increaseSize id delta => exact failsFast_change (Group.failsFast_act (.increase delta)) p id
      | deleteNodes id nodes => exact failsFast_change (Group.failsFast_act (.delete nodes)) p id
      | decreaseTarget id delta => exact failsFast_change (Group.failsFast_act (.decrease delta)) p id
      | health | groups | group | nodes | groupOfNode => exact .of_done ..

theorem ends_refresh_of_none (h : j.isRefresh = true) (he : (j.op p).Ends es q none) : p.refresh.Ends es q none := by
  cases j with
  | refresh => exact he
  | request action =>
      cases action with
      | refresh =>
          rcases (ends_bindIn _).mp he with ⟨s, h', rfl, -⟩ | ⟨_, _, _, _, -, hn, -⟩
          · exact h'
          · cases (ends_done.mp hn).2.2
      | health | groups | group | nodes | increaseSize | deleteNodes | decreaseTarget | groupOfNode => cases h

end Job

/-! ## Calls through a handle -/

namespace Handle

variable {φ : Type}

/-- A job that breaks off in a call ends for its caller in that error, or in the error of a timeout if the caller has
given up before. If it is not to refresh all groups, it leaves what it would leave if the call failed, whatever the error.
A refresh leaves the groups before one of them as a refresh of just these does, and the others as they were. The handle
serves all jobs after that as if nothing had broken off, except for the warning. -/
theorem call_of_brokenOff (h : Handle) (reply : Fleets φ Nat) (fleets : φ) (j : Job)
    (hb : ((j.op h.provider).run reply fleets).value = none) :
    let r := (j.op h.provider).run reply fleets
    let c := h.call reply fleets j.op
    c.answer = .error (if r.events.any (·.isLate) then .timeout h.timeout else .brokenOff) ∧
      c.handle.poisoned = true ∧ c.handle.timeout = h.timeout ∧
      (∃ es i q, r.events.filter (!·.isLate) = es ++ [.call i q none] ∧
        (j.isRefresh = false → ∀ e es' p v, (j.op h.provider).Ends (es ++ .failed i q (some e) :: es') p v ↔
          es' = [] ∧ p = c.handle.provider ∧ v = some (.error (.manager (.fleet e)))) ∧
        (j.isRefresh = true → ∃ done g later done' v, h.provider.groups = done ++ g :: later ∧
          i = done.length ∧ q = .status [g.manager.application] ∧ c.handle.provider.groups = done' ++ g :: later ∧
          (Provider.refresh ⟨done⟩).Ends es ⟨done'⟩ (some v))) ∧
      ∀ poisoned jobs,
        let s := c.handle.serve reply c.fleets jobs
        let s' := { c.handle with poisoned }.serve reply c.fleets jobs
        s'.handle.provider = s.handle.provider ∧ s'.fleets = s.fleets ∧ s'.answers = s.answers ∧
          s'.events.filter (!isRecovery ·) = s.events.filter (!isRecovery ·) := by
  intro r c
  have hr : (j.op h.provider).Ends (r.events.filter (!·.isLate)) r.state none := hb ▸ .of_run reply fleets _
  have hc : c.handle = h.after r := by
    simp only [c, call_eq]
    split <;> rfl
  refine ⟨?_, ?_, ?_, ?_, fun poisoned jobs => serve_poisoned c.handle poisoned reply c.fleets jobs⟩
  · simp only [c, call_eq]
    split
    · rfl
    · rw [hb]
      rfl
  · rw [hc, after, hb]
    exact Bool.or_true _
  · rw [hc]
    rfl
  · -- `es` is what has happened before the call in which the job breaks off
    obtain ⟨es, i, q, he⟩ := hr.exists_of_none
    rw [he] at hr
    rw [hc]
    refine ⟨es, i, q, he, fun hj e es' p v => (Job.failsFast_op hj _).ends_iff_of_asks hr, fun hj => ?_⟩
    obtain ⟨done, g, later, done', es₁, v, hg, he', hs, hd⟩ :=
      (Provider.ends_refreshFrom.mp (Job.ends_refresh_of_none hj hr)).exists_of_none
    obtain ⟨rfl, hl⟩ := List.append_inj' he' rfl
    cases hl
    exact ⟨done, g, later, done', _, hg, Nat.zero_add _, rfl, hs, Provider.ends_refreshFrom.mpr hd⟩

def overTwoGroups : Handle := { provider := Provider.twoGroups, timeout := .ofSeconds 5 }

def removingBoth : Job := .request (.deleteNodes "juju-k-app" ["n0", "n1"])

/-- The second group is asked to remove two units, and its fleet breaks off in the second call. Then a refresh is to go
through both groups and breaks off in the second. -/
theorem call_of_brokenOff_removing :
    let c := overTwoGroups.call Fleet.Script.row
      [{}, { destroyUnits := [{ outcome := some (.ok []) }, { outcome := none }] }] removingBoth.op
    let d := c.handle.call Fleet.Script.row
      [{ status := [{ outcome := some (.ok Group.twoUnits) }] }, { status := [{ outcome := none }] }] Job.refresh.op
    (c.answer = .error .brokenOff ∧
      (removingBoth.op Provider.twoGroups).Ends
        [.answered 1 (.destroyUnits ["app/0"] false false) [],
          .failed 1 (.destroyUnits ["app/1"] false false) (some (.decode "no JSON"))]
        c.handle.provider (some (.error (.manager (.fleet (.decode "no JSON")))))) ∧
      d.answer = .error .brokenOff ∧ d.handle.poisoned = true ∧
        ∃ done g later done' v, c.handle.provider.groups = done ++ g :: later ∧ 1 = done.length ∧
          d.handle.provider.groups = done' ++ g :: later ∧
          (Provider.refresh ⟨done⟩).Ends [.answered 0 (.status ["app"]) Group.twoUnits] ⟨done'⟩ (some v) := by
  intro c d
  obtain ⟨ha, -, -, ⟨es, i, q, he, hf, -⟩, -⟩ := call_of_brokenOff overTwoGroups Fleet.Script.row
    [{}, { destroyUnits := [{ outcome := some (.ok []) }, { outcome := none }] }] removingBoth rfl
  replace he : [.answered 1 (.destroyUnits ["app/0"] false false) []] ++
      [.call 1 (.destroyUnits ["app/1"] false false) none] = es ++ [.call i q none] := he
  obtain ⟨rfl, hl⟩ := List.append_inj' he rfl
  cases hl
  obtain ⟨ha', hp, -, ⟨es, i, q, he, -, hr⟩, -⟩ := call_of_brokenOff c.handle Fleet.Script.row
    [{ status := [{ outcome := some (.ok Group.twoUnits) }] }, { status := [{ outcome := none }] }] .refresh rfl
  replace he : [.answered 0 (.status ["app"]) Group.twoUnits] ++ [.call 1 (.status ["app"]) none] =
      es ++ [.call i q none] := he
  obtain ⟨rfl, hl⟩ := List.append_inj' he rfl
  cases hl
  obtain ⟨done, g, later, done', v, hg, hn, -, hg', hd⟩ := hr rfl
  have he := (hf rfl (.decode "no JSON") [] _ _).mpr ⟨rfl, rfl, rfl⟩
  exact ⟨⟨ha, he⟩, ha', hp, done, g, later, done', v, hg, hn, hg', hd⟩

/-- A caller who has given up by the time that the job breaks off is not told of it. -/
theorem answer_ne_task_growing : ¬ ∀ (h : Handle) (fleets : List Fleet.Script) (j : Job),
    ((j.op h.provider).run Fleet.Script.row fleets).value = none →
      ∃ reason, (h.call Fleet.Script.row fleets j.op).answer = .error (.task reason) := by
  intro h
  obtain ⟨reason, ht⟩ : ∃ reason, (.error (.timeout (.ofSeconds 5)) : Except Provider.Error Json.Value) =
      .error (.task reason) := h overTwoGroups
    [{ status := [{ late := true, outcome := some (.ok Manager.oneUnit) }], addUnits := [{ outcome := none }] }]
    (.request (.increaseSize "juju-m-app" 1)) rfl
  cases ht

end Handle
end NodeGroups
