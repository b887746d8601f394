import NodeGroups.Api
import NodeGroups.Proofs.Group.Deletions
import NodeGroups.Proofs.Handle.BreakingOff
import NodeGroups.Proofs.Handle.Calls
import NodeGroups.Proofs.Provider.Ending

/-!
# What answers tell

The status of an answer blames a fleet just if a call to a fleet has failed for it, and the request just if no call has. An
answer that blames the request also tells how little has been done: looking asks nothing and changes nothing, a size that is
rejected is left alone, and a deletion has got through the nodes before one that cannot be deleted. Main statement:
`truthful_answer`.
-/

namespace NodeGroups.Api
open Operation
open Json (Value)
open Provider (Error)

variable {ι κ α β : Type} {v : Except Error α} {es es' : List (Event ι)}

/-! ## Statuses -/

/-- The status of the response to an outcome. -/
def codeOf : Except Error α → Nat
  | .ok _ => 200
  | .error e => statusOf e

theorem status_respond (v : Except Error Value) : (respond v).status = codeOf v := by
  cases v <;> rfl

/-- Success is claimed just if the status says so. -/
theorem body_respond (v : Except Error Value) :
    ∃ m, (respond v).body = some (.record [("success", .bool ((respond v).status == 200)), m]) := by
  cases v with
  | ok data => exact ⟨_, rfl⟩
  | error e =>
      have he : (statusOf e == 200) = false := by
        unfold statusOf
        split <;> rfl
      exact ⟨("error", .str e.message), by rw [respond, he]⟩

theorem codeOf_map (f : α → β) (v : Except Error α) : codeOf (v.map f) = codeOf v := by
  cases v <;> rfl

/-- The outcome blames a fleet just if a call has failed, and is a success or else blames the request otherwise. -/
structure Blames (v : Except Error α) (es : List (Event ι)) : Prop where
  failed_iff : codeOf v = 502 ↔ ∃ e ∈ es, e.isFailure = true
  mem : codeOf v ∈ [200, 400, 404, 502]

namespace Blames

theorem of_nil (h : codeOf v ∈ [200, 400, 404]) : Blames v ([] : List (Event ι)) := by
  simp only [List.mem_cons, List.not_mem_nil, or_false] at h
  constructor
  · simp
    omega
  · simp
    omega

theorem map_value (h : Blames v es) (f : α → β) : Blames (v.map f) es where
  failed_iff := by
    rw [codeOf_map]
    exact h.failed_iff
  mem := by
    rw [codeOf_map]
    exact h.mem

theorem map (h : Blames v es) (fleet : ι → κ) : Blames v (es.map (Event.map fleet)) where
  failed_iff := by simp [h.failed_iff]
  mem := h.mem

end Blames

/-! ## Operations -/

section Group
variable {g g' : Group} {m m' : Manager} {c : Group.Command} {es : List (Event Unit)} {v : Except Error Unit}

theorem code_of_scalesUp {count : Nat} {w : Option (Except Manager.Error Unit)} (h : Manager.ScalesUp m count es m' w)
    (hw : w ≠ some (.ok ())) (hv : some v = Group.relay w) : codeOf v = 502 ∧ ∃ e ∈ es, e.isFailure = true := by
  cases h with
  | zero | grown => exact absurd rfl hw
  | @unseen e | @refused _ e | @lost _ _ e =>
      cases e with
      | none => cases hv
      | some e =>
          cases hv
          exact ⟨rfl, _, List.mem_of_getLast? rfl, rfl⟩

theorem code_of_deletes {nodes : List String} (h : Group.Deletes g nodes es g' (some v)) :
    codeOf v ∈ [200, 400, 404] ∨ codeOf v = 502 ∧ ∃ e ∈ es, e.isFailure = true := by
  generalize hv : some v = w at h
  induction h with
  | done | tooSmall | unknown =>
      cases hv
      exact .inl (by simp [codeOf, statusOf])
  | @refused _ _ _ _ _ e =>
      cases e with
      | none => cases hv
      | some e =>
          cases hv
          exact .inr ⟨rfl, _, List.mem_singleton_self _, rfl⟩
  | removed _ _ _ ih =>
      refine (ih hv).imp_right ?_
      rintro ⟨hc, e, he, hf⟩
      exact ⟨hc, e, List.mem_append_right _ he, hf⟩

theorem code_of_ends (he : (Group.act c g).Ends es g' (some v)) :
    codeOf v ∈ [200, 400, 404] ∨ codeOf v = 502 ∧ ∃ e ∈ es, e.isFailure = true := by
  cases c with
  | increase delta =>
      replace he := Group.ends_increaseSize.mp he
      generalize hv : some v = w at he
      cases he with
      | invalid | tooLarge | grown =>
          cases hv
          exact .inl (by simp [codeOf, statusOf])
      | failed _ _ hs hw => exact .inr (code_of_scalesUp hs hw hv)
  | delete nodes => exact code_of_deletes (Group.ends_deleteNodes.mp he)
  | decrease delta =>
      replace he := Group.ends_decreaseTarget.mp he
      generalize hv : some v = w at he
      cases he <;>
      · cases hv
        exact .inl (by simp [codeOf, statusOf])
  | refresh =>
      replace he := Group.ends_refresh.mp he
      generalize hv : some v = w at he
      cases he with
      | @failed e =>
          cases e with
          | none => cases hv
          | some e =>
              cases hv
              exact .inr ⟨rfl, _, List.mem_singleton_self _, rfl⟩
      | renewed =>
          cases hv
          exact .inl (by simp [codeOf])

theorem blames_of_ends (he : (Group.act c g).Ends es g' (some v)) : Blames v es := by
  have hc := code_of_ends he
  refine ⟨⟨fun h => ?_, ?_⟩, ?_⟩
  · rcases hc with hc | hc
    · rw [h] at hc
      simp at hc
    · exact hc.2
  · rintro ⟨e, hm, hf⟩
    obtain ⟨i, r, err, rfl⟩ := Event.isFailure_iff.mp hf
    obtain ⟨es₁, es₂, rfl⟩ := List.append_of_mem hm
    cases ((Group.failsFast_act c g).ends he).1
    rfl
  · rcases hc with hc | ⟨hc, -⟩
    · exact List.mem_append_left [502] hc
    · rw [hc]
      simp

end Group

section Provider
variable {p q : Provider} {es : List (Event Nat)} {a : Action} {id : String}

theorem code_of_refreshesFrom {before rest : List Group} {failure : Option Error} {v : Except Error Unit}
    (h : Provider.RefreshesFrom before failure rest es q (some v)) (hf : ∀ e ∈ failure, statusOf e = 502) :
    codeOf v ∈ [200, 502] ∧ (codeOf v = 502 ↔ failure.isSome = true ∨ ∃ e ∈ es, e.isFailure = true) := by
  generalize hv : some v = w at h
  induction h with
  | @done _ failure =>
      cases hv
      cases failure with
      | none => simp [codeOf]
      | some e => simp [codeOf, hf e rfl]
  | brokenOff => cases hv
  | @failed _ failure _ _ e _ _ _ _ ih =>
      have hf' : ∀ e' ∈ failure.or (some (.manager (.fleet e))), statusOf e' = 502 := by
        intro e' he'
        cases failure with
        | none =>
            cases he'
            rfl
        | some _ => exact hf e' he'
      obtain ⟨hm, hi⟩ := ih hf' hv
      refine ⟨hm, iff_of_true (hi.mpr (.inl ?_)) (.inr ⟨_, List.mem_cons_self, rfl⟩)⟩
      cases failure <;> rfl
  | renewed _ ih =>
      obtain ⟨hm, hi⟩ := ih hf hv
      refine ⟨hm, hi.trans ?_⟩
      simp [Event.isFailure]

theorem blames_of_refresh {v : Except Error Unit} (he : p.refresh.Ends es q (some v)) : Blames v es := by
  obtain ⟨hm, hi⟩ := code_of_refreshesFrom (Provider.ends_refreshFrom.mp he) (by simp)
  refine ⟨by simpa using hi, ?_⟩
  simp only [List.mem_cons, List.not_mem_nil, or_false] at hm ⊢
  omega

/-- What is asked of a group by its id. -/
theorem ends_change {f : Group → Group.Op Unit} {v : Except Error Value}
    (he : (change p id f).Ends es q (some v)) :
    (p.placeOf? id = none ∧ es = [] ∧ q = p ∧ v = .error (.groupNotFound id)) ∨
      ∃ i g es' g' w, p.placeOf? id = some i ∧ p.groups[i]? = some g ∧ (f g).Ends es' g' (some w) ∧
        es = es'.map (Event.map fun _ => i) ∧ q = ⟨p.groups.set i g'⟩ ∧ v = w.map fun () => g'.summary.toJson := by
  unfold change at he
  cases hp : p.placeOf? id with
  | none =>
      rw [Provider.onGroup_of_none hp, ends_done] at he
      obtain ⟨rfl, rfl, hv⟩ := he
      exact .inl ⟨rfl, rfl, rfl, Option.some.inj hv⟩
  | some i =>
      obtain ⟨g, hg, ho⟩ := Provider.onGroup_of_some hp
        (fun g => (f g).bind fun g result => .done g (result.map fun () => g.summary.toJson))
      rw [ho, ends_within] at he
      obtain ⟨es', g', he, rfl, rfl⟩ := he
      obtain ⟨w, hw, rfl⟩ := ends_of_bind_done he
      exact .inr ⟨i, g, es', g', w, rfl, hg, hw, rfl, rfl, rfl⟩

theorem blames_of_change {v : Except Error Value} (c : Group.Command)
    (he : (change p id (Group.act c)).Ends es q (some v)) : Blames v es := by
  rcases ends_change he with ⟨-, rfl, -, rfl⟩ | ⟨i, g, es', g', w, -, -, hw, rfl, -, rfl⟩
  · exact .of_nil (by simp [codeOf, statusOf])
  · exact ((blames_of_ends hw).map fun _ => i).map_value _

theorem blames_of_perform {v : Except Error Value} (he : (perform p a).Ends es q (some v)) : Blames v es := by
  cases a with
  | increaseSize id delta => exact blames_of_change (.increase delta) he
  | deleteNodes id nodes => exact blames_of_change (.delete nodes) he
  | decreaseTarget id delta => exact blames_of_change (.decrease delta) he
  | refresh =>
      obtain ⟨w, hw, rfl⟩ := ends_of_bind_done he
      exact (blames_of_refresh hw).map_value _
  | health | groups =>
      obtain ⟨rfl, -, hv⟩ := ends_done.mp he
      rw [Option.some.inj hv]
      exact .of_nil (by simp [codeOf])
  | group id | nodes id =>
      obtain ⟨rfl, -, hv⟩ := ends_done.mp he
      rw [Option.some.inj hv, Provider.group]
      refine .of_nil ?_
      cases p.group? id <;> simp [codeOf, statusOf, Except.map]
  | groupOfNode node =>
      obtain ⟨rfl, -, hv⟩ := ends_done.mp he
      rw [Option.some.inj hv]
      refine .of_nil ?_
      cases p.groupOf? node <;> simp [codeOf, statusOf]

end Provider

/-! ## Exchanges -/

theorem quiet_of_resize {g g' : Group} {es : List (Event Unit)} {v : Except Error Unit} {c : Group.Command} {delta : Nat}
    (hc : c = .increase delta ∨ c = .decrease delta) (he : (Group.act c g).Ends es g' (some v))
    (hv : codeOf v ∈ [400, 404]) : es = [] ∧ g' = g := by
  rcases hc with rfl | rfl
  · replace he := Group.ends_increaseSize.mp he
    generalize hw : some v = w at he
    cases he with
    | invalid | tooLarge => exact ⟨rfl, rfl⟩
    | failed _ _ hs hw' =>
        rw [(code_of_scalesUp hs hw' hw).1] at hv
        simp at hv
    | grown =>
        cases hw
        simp [codeOf] at hv
  · replace he := Group.ends_decreaseTarget.mp he
    generalize hw : some v = w at he
    cases he with
    | invalid | tooSmall | registered => exact ⟨rfl, rfl⟩
    | lowered =>
        cases hw
        simp [codeOf] at hv

section Exchange
variable {φ : Type} {h : Handle} {reply : Fleets φ Nat} {fleets : φ} {r : Http.Request} {a : Action}

theorem exchange_of_ne_health (ha : a ≠ .health) :
    exchange h reply fleets a =
      let c := h.call reply fleets fun p => perform p a
      { handle := c.handle, fleets := c.fleets, response := respond c.answer
        events := c.events ++ (complaints c.answer).map .warn ++ c.afterwards } := by
  cases a with
  | health => exact absurd rfl ha
  | groups | group | nodes | increaseSize | deleteNodes | decreaseTarget | groupOfNode | refresh => rfl

theorem calls_recovery (h : Handle) : calls h.recovery = [] := by
  unfold Handle.recovery
  split <;> rfl

/-- If no call to a fleet hangs or breaks off, an exchange hands on what the action has come to. -/
theorem exchange_eq (hd : ∀ e ∈ ((perform h.provider a).run reply fleets).events, e.isDisturbance = false) :
    ∃ es p v events, (perform h.provider a).Ends es p (some v) ∧ calls events = calls es ∧
      exchange h reply fleets a =
        { handle := { h with provider := p }, fleets := ((perform h.provider a).run reply fleets).fleets,
          response := respond v, events } := by
  have hr := Ends.of_run reply fleets (perform h.provider a)
  have hl : ((perform h.provider a).run reply fleets).events.any (·.isLate) = false := by
    rw [List.any_eq_false]
    intro e he hl
    have hd' := hd e he
    cases e <;> cases hl
    cases hd'
  cases hv : ((perform h.provider a).run reply fleets).value with
  | none =>
      -- it has broken off in a call, which is among its events
      rw [hv] at hr
      obtain ⟨es', i, q, he⟩ := hr.exists_of_none
      have hm : .call i q none ∈ es' ++ [.call i q none] := List.mem_append_right _ List.mem_cons_self
      rw [← he] at hm
      cases hd _ (List.mem_filter.mp hm).1
  | some v =>
      rw [hv] at hr
      by_cases ha : a = .health
      · subst ha
        cases hv
        exact ⟨_, _, _, [], hr, rfl, rfl⟩
      · rw [exchange_of_ne_health ha, Handle.call_of_value hl hv]
        refine ⟨_, _, v, _, hr, ?_, rfl⟩
        simp [calls_recovery]

/-- A request that is got, and not posted, looks at the provider and no more. -/
theorem exists_look {r : Http.Request} (ha : action r = .ok a) (hm : r.method = "GET" ∨ r.method = "HEAD")
    (p : Provider) : ∃ v, perform p a = look p v := by
  unfold action at ha
  split at ha
  · cases ha
  next route _ =>
    split at ha
    · next hr =>
      cases route with
      | health | groups =>
          cases ha
          exact ⟨_, rfl⟩
      | group id | nodes id | groupOfNode id =>
          cases hp : parameter id with
          | error =>
              rw [actionOn, hp] at ha
              cases ha
          | ok id =>
              rw [actionOn, hp] at ha
              cases ha
              exact ⟨_, rfl⟩
      | increaseSize | deleteNodes | decreaseTarget | refresh =>
          rcases hm with hm | hm <;> simp [Route.allows, Route.isReading, hm] at hr
    · cases ha

/-- An answer tells what has become of the calls that were made for it. -/
structure Truthful (h : Handle) (r : Http.Request) (a : Action) (x : Exchange φ) : Prop where
  failed_iff : x.response.status = 502 ↔ ∃ e ∈ x.events, e.isFailure = true
  status_mem : x.response.status ∈ [200, 400, 404, 502]
  body : r.method ≠ "HEAD" → ∃ m, x.response.body = some (.record [("success", .bool (x.response.status == 200)), m])
  reading : r.method = "GET" ∨ r.method = "HEAD" → calls x.events = [] ∧ x.handle = h
  /-- A size that is rejected is not changed, and nothing has been asked of a fleet. -/
  resizing : ∀ id delta, a = .increaseSize id delta ∨ a = .decreaseTarget id delta → x.response.status ∈ [400, 404] →
    calls x.events = [] ∧ x.handle = h
  /-- A deletion that is rejected has got through the nodes before one that cannot be deleted. -/
  deleting : ∀ id nodes, a = .deleteNodes id nodes → x.response.status ∈ [400, 404] →
    h.provider.placeOf? id = none ∧ calls x.events = [] ∧ x.handle = h ∨
    ∃ i g before node after g', h.provider.placeOf? id = some i ∧ h.provider.groups[i]? = some g ∧
      nodes = before ++ node :: after ∧ (g'.target ≤ g'.minSize ∨ g'.manager.backing? node = none) ∧
      Group.Deleted i g before x.events g' ∧ x.handle = { h with provider := ⟨h.provider.groups.set i g'⟩ }

/-- What a request to change a size has left behind if it was rejected. -/
theorem quiet_of_change {p q : Provider} {id : String} {c : Group.Command} {delta : Nat} {es : List (Event Nat)}
    {v : Except Error Value} (hc : c = .increase delta ∨ c = .decrease delta)
    (he : (change p id (Group.act c)).Ends es q (some v)) (hv : codeOf v ∈ [400, 404]) : es = [] ∧ q = p := by
  rcases ends_change he with ⟨-, rfl, rfl, -⟩ | ⟨i, g, es', g', w, -, hg, hw, rfl, rfl, rfl⟩
  · exact ⟨rfl, rfl⟩
  · rw [codeOf_map] at hv
    obtain ⟨rfl, rfl⟩ := quiet_of_resize hc hw hv
    obtain ⟨hi, rfl⟩ := List.getElem?_eq_some_iff.mp hg
    exact ⟨rfl, congrArg Provider.mk (List.set_getElem_self hi)⟩

/-- What a deletion has left behind if it was rejected. -/
theorem deleted_of_change {p q : Provider} {id : String} {nodes : List String} {es : List (Event Nat)}
    {v : Except Error Value} (he : (change p id (·.deleteNodes nodes)).Ends es q (some v))
    (hv : codeOf v ∈ [400, 404]) :
    p.placeOf? id = none ∧ es = [] ∧ q = p ∨
    ∃ i g before node after g', p.placeOf? id = some i ∧ p.groups[i]? = some g ∧ nodes = before ++ node :: after ∧
      (g'.target ≤ g'.minSize ∨ g'.manager.backing? node = none) ∧ Group.Deleted i g before es g' ∧
      q = ⟨p.groups.set i g'⟩ := by
  rcases ends_change he with ⟨hp, rfl, rfl, -⟩ | ⟨i, g, es', g', w, hp, hg, hw, rfl, rfl, rfl⟩
  · exact .inl ⟨hp, rfl, rfl⟩
  · rw [codeOf_map] at hv
    cases w with
    | ok => simp [codeOf] at hv
    | error err =>
        have hn : ∀ e, err ≠ .manager (.fleet e) := by
          rintro e rfl
          simp [codeOf, statusOf] at hv
        obtain ⟨before, node, after, hs, hd, ho⟩ := (Group.ends_deleteNodes.mp hw).deleted_of_error hn
        exact .inr ⟨i, g, before, node, after, g', hp, hg, hs, ho, hd.map fun _ => i, rfl⟩

theorem answer_of_action {r : Http.Request} (ha : action r = .ok a) :
    answer h reply fleets r =
      let x := exchange h reply fleets a
      if r.method == "HEAD" then { x with response := { status := x.response.status } } else x := by
  rw [answer, ha]

/-- Every answer to a request that asks for something is truthful, unless a call to a fleet hangs or breaks off. -/
theorem truthful_answer {r : Http.Request} (ha : action r = .ok a)
    (hd : ∀ e ∈ ((perform h.provider a).run reply fleets).events, e.isDisturbance = false) :
    Truthful h r a (answer h reply fleets r) := by
  obtain ⟨es, p, v, events, he, hc, hx⟩ := exchange_eq hd
  obtain ⟨response, hr, hs, hb⟩ : ∃ response, answer h reply fleets r =
      { handle := { h with provider := p }, fleets := ((perform h.provider a).run reply fleets).fleets, response, events } ∧
      response.status = codeOf v ∧ (r.method ≠ "HEAD" → response = respond v) := by
    rw [answer_of_action ha, hx]
    by_cases hm : r.method = "HEAD"
    · exact ⟨{ status := (respond v).status }, by simp [hm], status_respond v, absurd hm⟩
    · exact ⟨respond v, by simp [hm], status_respond v, fun _ => rfl⟩
  have hbl := blames_of_perform he
  rw [hr]
  constructor <;> dsimp only
  case failed_iff => rw [hs, hbl.failed_iff, ← exists_isFailure_calls, ← hc, exists_isFailure_calls]
  case status_mem =>
    rw [hs]
    exact hbl.mem
  case body =>
    intro hm
    rw [hb hm]
    exact body_respond v
  case reading =>
    intro hm
    obtain ⟨w, hw⟩ := exists_look ha hm h.provider
    rw [hw, look, ends_done] at he
    obtain ⟨rfl, rfl, -⟩ := he
    exact ⟨hc, rfl⟩
  case resizing =>
    rintro id delta (rfl | rfl) hv <;> rw [hs] at hv
    · obtain ⟨rfl, rfl⟩ := quiet_of_change (.inl rfl) he hv
      exact ⟨hc, rfl⟩
    · obtain ⟨rfl, rfl⟩ := quiet_of_change (.inr rfl) he hv
      exact ⟨hc, rfl⟩
  case deleting =>
    rintro id nodes rfl hv
    rw [hs] at hv
    rcases deleted_of_change he hv with ⟨hp, rfl, rfl⟩ | ⟨i, g, before, node, after, g', hp, hg, hn, ho, hd, rfl⟩
    · exact .inl ⟨hp, hc, rfl⟩
    · exact .inr ⟨i, g, before, node, after, g', hp, hg, hn, ho, hd.congr hc, rfl⟩

end Exchange

/-- Asks to delete a node of a group of two, and one that the group does not have. -/
def deletion : Http.Request where
  method := "POST"
  target := "/api/v1/node-groups/juju-k-app/delete-nodes"
  contentType := some "application/json"
  body := "\x7b\"nodes\": [\"n0\", \"n2\"]\x7d".toUTF8.toList

theorem truthful_answer_deletion :
    let x := answer Handle.overTwoGroups Fleet.Script.row [{}, { destroyUnits := [{ outcome := some (.ok []) }] }] deletion
    action deletion = .ok (.deleteNodes "juju-k-app" ["n0", "n2"]) ∧ x.response.status = 404 ∧
      Truthful Handle.overTwoGroups deletion (.deleteNodes "juju-k-app" ["n0", "n2"]) x :=
  have ha : action deletion = .ok (.deleteNodes "juju-k-app" ["n0", "n2"]) := by decide +kernel
  ⟨ha, by decide +kernel, truthful_answer ha (by decide +kernel)⟩

end NodeGroups.Api
