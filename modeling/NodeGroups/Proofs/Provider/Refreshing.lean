import NodeGroups.Proofs.Manager.Staying
import NodeGroups.Proofs.Provider.Removals
import NodeGroups.Proofs.Replies

/-!
# Refreshes of all groups

A refresh of a provider is a refresh of each of its groups, one after another, and none of them bears on another. Main
statement: `refresh_isolates`.
-/

namespace NodeGroups
open Fleet (Request Snapshot)
open Operation

/-- The fleet that is called, and the request. -/
def Operation.Event.request? {ι : Type} : Event ι → Option (ι × Request)
  | .call i r _ => some (i, r)
  | _ => none

namespace Group

/-- What the operation has failed with. -/
def failure? (d : Turn) : Option Provider.Error :=
  match d.value with
  | some (.error e) => some e
  | _ => none

/-- What is said of it if it has failed as one of a row of refreshes. -/
def warning? (d : Turn) : Option Notice := (failure? d).map fun e => .groupRefreshFailed d.before.id e.message

/-- The group has been refreshed on its own, which has succeeded or left it as it was. -/
structure Refreshed (d : Turn) : Prop where
  ends_iff : ∀ g v, d.before.refresh.Ends d.events g v ↔ g = d.after ∧ v = d.value
  outcome : (d.value = some (.ok ()) ∧ d.after.target = d.after.size ∧ ∀ id, ¬ d.after.manager.Deleting id) ∨
    ∃ e, d.value = some (.error e) ∧ d.after = d.before

theorem refreshed_failed (g : Group) (e : Fleet.Error) :
    Refreshed ⟨.refresh, g, [.failed () (.status [g.manager.application]) (some e)], g,
      some (.error (.manager (.fleet e)))⟩ where
  ends_iff _ _ := (ends_refresh.mpr (.failed (e := some e))).iff_eq
  outcome := .inr ⟨_, rfl, rfl⟩

theorem refreshed_renewed (g : Group) (s : Snapshot) :
    Refreshed ⟨.refresh, g, [.answered () (.status [g.manager.application]) s],
      { g with manager := g.manager.reconciled s, target := (g.manager.reconciled s).size }, some (.ok ())⟩ where
  ends_iff _ _ := (ends_refresh.mpr .renewed).iff_eq
  outcome := .inl ⟨rfl, rfl, fun _ => Manager.not_deleting_reconciled⟩

end Group

namespace Provider

variable {p p' : Provider} {es : List (Event Nat)} {v : Option (Except Error Unit)}

/-- The groups behind the first `n` have been refreshed one after another, each on its own. -/
structure Isolated (n : Nat) (failure : Option Error) (turns : List Group.Turn) (es : List (Event Nat))
    (v : Option (Except Error Unit)) : Prop where
  refreshed : ∀ d ∈ turns, Group.Refreshed d
  calls : ∀ d i, (d, i) ∈ turns.zipIdx n → callsTo i es = d.events
  others : ∀ i < n, callsTo i es = []
  requests : es.filterMap Event.request? =
    (turns.zipIdx n).map fun (d, i) => (i, .status [d.before.manager.application])
  notices : es.filterMap Event.notice? = turns.filterMap Group.warning?
  value_eq : v = some ((failure.or (turns.findSome? Group.failure?)).elim (.ok ()) .error)

theorem Isolated.nil (n : Nat) (failure : Option Error) :
    Isolated n failure [] [] (some (failure.elim (.ok ()) .error)) where
  refreshed _ hd := absurd hd List.not_mem_nil
  calls _ _ hd := absurd hd List.not_mem_nil
  others _ _ := rfl
  requests := rfl
  notices := rfl
  value_eq := by simp

theorem callsTo_call {i n : Nat} {r : Request} {o : Option (Fleet.Outcome r)} {ns : List Notice} :
    callsTo i (.call n r o :: ns.map .warn ++ es) = if n = i then .call () r o :: callsTo i es else callsTo i es := by
  by_cases h : n = i <;> simp [callsTo, Event.to?, h]

theorem Isolated.cons {n : Nat} {failure : Option Error} {turns : List Group.Turn} {d : Group.Turn}
    {o : Option (Fleet.Outcome (.status [d.before.manager.application]))} (hd : Group.Refreshed d)
    (hes : d.events = [.call () (.status [d.before.manager.application]) o])
    (h : Isolated (n + 1) (failure.or (Group.failure? d)) turns es v) :
    Isolated n failure (d :: turns)
      (.call n (.status [d.before.manager.application]) o :: (Group.warning? d).toList.map .warn ++ es) v where
  refreshed := List.forall_mem_cons.mpr ⟨hd, h.refreshed⟩
  calls := by
    intro d' i hi
    rw [List.zipIdx_cons, List.mem_cons] at hi
    rw [callsTo_call]
    rcases hi with hi | hi
    · cases hi
      rw [if_pos rfl, h.others n n.lt_succ_self, hes]
    · have hn : n ≠ i := Nat.ne_of_lt (List.le_snd_of_mem_zipIdx hi)
      rw [if_neg hn, h.calls d' i hi]
  others i hi := by
    rw [callsTo_call, if_neg hi.ne', h.others i (hi.trans n.lt_succ_self)]
  requests := by
    rw [List.filterMap_append, h.requests]
    simp [Event.request?]
  notices := by
    rw [List.filterMap_append, h.notices]
    cases hw : Group.warning? d <;> simp [List.filterMap_cons, Event.notice?, hw]
  value_eq := by
    rw [h.value_eq, List.findSome?_cons, Option.or_assoc]
    cases Group.failure? d <;> rfl

theorem RefreshesFrom.exists_isolated {before rest : List Group} {failure : Option Error}
    (h : RefreshesFrom before failure rest es p' v) (hb : ∀ i r, .call i r none ∉ es) :
    ∃ turns : List Group.Turn, turns.map (·.before) = rest ∧ p'.groups = before ++ turns.map (·.after) ∧
      Isolated before.length failure turns es v := by
  -- each case puts one group in front, whose fleet none of the others calls
  induction h with
  | done => exact ⟨[], rfl, by simp, .nil ..⟩
  | brokenOff => exact absurd List.mem_cons_self (hb _ _)
  | @failed before failure g rest e es p' v _ ih =>
      obtain ⟨turns, rfl, ha, hi⟩ := ih fun i r hm => hb i r (List.mem_cons_of_mem _ (List.mem_cons_of_mem _ hm))
      rw [List.length_append] at hi
      refine ⟨_ :: turns, rfl, ?_, hi.cons (Group.refreshed_failed g e) rfl⟩
      rw [ha, List.append_assoc]
      rfl
  | @renewed before failure g rest s es p' v _ ih =>
      obtain ⟨turns, rfl, ha, hi⟩ := ih fun i r hm => hb i r (List.mem_cons_of_mem _ hm)
      rw [List.length_append, ← Option.or_none (o := failure)] at hi
      refine ⟨_ :: turns, rfl, ?_, hi.cons (Group.refreshed_renewed g s) rfl⟩
      rw [ha, List.append_assoc]
      rfl

/-- No call breaks the refresh off. Then each group has been refreshed on its own, with one request for the status and the
calls that its fleet has got, and is left as that leaves it. There is a warning about each refresh that has failed, in the
order of the groups, and the first failure is the outcome. -/
theorem refresh_isolates (h : p.refresh.Ends es p' v) (hb : ∀ i r, .call i r none ∉ es) :
    ∃ turns : List Group.Turn, turns.map (·.before) = p.groups ∧ turns.map (·.after) = p'.groups ∧
      (∀ i d, turns[i]? = some d → Group.Refreshed d ∧ callsTo i es = d.events) ∧
      es.filterMap Event.request? =
        p.groups.zipIdx.map (fun (g, i) => (i, .status [g.manager.application])) ∧
      es.filterMap Event.notice? = turns.filterMap Group.warning? ∧
      v = some ((turns.findSome? Group.failure?).elim (.ok ()) .error) := by
  obtain ⟨turns, hp, ha, hi⟩ := (ends_refreshFrom.mp h).exists_isolated hb
  refine ⟨turns, hp, ha.symm, fun i d hd => ?_, ?_, hi.notices, hi.value_eq⟩
  · exact ⟨hi.refreshed d (List.mem_of_getElem? hd), hi.calls d i (List.mem_zipIdx_iff_getElem?.mpr hd)⟩
  · rw [hi.requests, ← hp, List.zipIdx_map, List.map_map]
    rfl

/-- The fleet of the first of two groups gives no status, and that of the second lists one unit where it has listed two. -/
def refreshingSecond : List (Event Nat) :=
  [.failed 0 (.status ["app"]) (some (.decode "no JSON")), .warn (.groupRefreshFailed "juju-m-app" (Fleet.Error.decode "no JSON").message),
    .answered 1 (.status ["app"]) Manager.oneUnit]

theorem refresh_isolates_refreshingSecond :
    ∃ turns : List Group.Turn, turns.map (·.before) = twoGroups.groups ∧ turns.map (·.after.target) = [1, 1] ∧
      turns.filterMap Group.warning? = [.groupRefreshFailed "juju-m-app" (Fleet.Error.decode "no JSON").message] ∧
      turns.findSome? Group.failure? = some (.manager (.fleet (.decode "no JSON"))) := by
  have h : twoGroups.refresh.Ends refreshingSecond _ (some (.error (.manager (.fleet (.decode "no JSON"))))) :=
    ends_refreshFrom.mpr (.failed (.renewed .done))
  have hb : ∀ i r, .call i r none ∉ refreshingSecond := by
    rintro i r (_ | ⟨_, _ | ⟨_, _ | ⟨_, ⟨⟩⟩⟩⟩)
  obtain ⟨turns, hp, ha, -, -, hn, hv⟩ := refresh_isolates h hb
  refine ⟨turns, hp, ?_, hn.symm, ?_⟩
  · have ht : turns.map (·.after.target) = (turns.map (·.after)).map (·.target) := by rw [List.map_map]; rfl
    rw [ht, ha]
    rfl
  · cases hf : turns.findSome? Group.failure? with
    | none =>
      rw [hf] at hv
      cases hv
    | some e =>
      rw [hf] at hv
      cases hv
      rfl

end Provider
end NodeGroups
