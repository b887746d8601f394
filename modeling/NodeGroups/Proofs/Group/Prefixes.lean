import NodeGroups.Proofs.Group.Deletions

/-!
# Nodes deleted in turn

To delete some nodes and then others is to delete them all, unless the first deletion does not succeed. So a deletion that
stops has deleted the nodes before one, and has left those behind it alone. Main statement: `deleteNodes_in_turn`.
-/

namespace NodeGroups
open Operation

/-! ## One operation after another -/

namespace Operation

variable {ι κ σ τ α β γ φ : Type}

theorem bind_bindIn {fleet : ι → κ} {put : σ → τ} {next : σ → α → Operation κ τ β}
    {last : τ → β → Operation κ τ γ} :
    (op : Operation ι σ α) →
      (op.bindIn fleet put next).bind last = op.bindIn fleet put fun s a => (next s a).bind last
  | done _ _ => rfl
  | warn n rest => congrArg (warn n) (bind_bindIn rest)
  | call s i r k => congrArg (call (put s) (fleet i) r) (funext fun o => bind_bindIn (k o))

/-- What has come of two operations, if the first has a value to go on with. -/
def Run.andThen (reply : Fleets φ ι) (r : Run ι φ σ α) (next : σ → α → Operation ι σ β) : Run ι φ σ β :=
  match r.value with
  | none => { r with value := none }
  | some a => ((next r.state a).run reply r.fleets).after r.events

theorem Run.after_andThen (reply : Fleets φ ι) (es : List (Event ι)) (r : Run ι φ σ α)
    (next : σ → α → Operation ι σ β) :
    (r.after es).andThen reply next = (r.andThen reply next).after es := by
  unfold andThen
  cases hv : r.value <;> simp [after, hv]

theorem run_bind (reply : Fleets φ ι) (next : σ → α → Operation ι σ β) :
    (op : Operation ι σ α) → (fleets : φ) →
      (op.bind next).run reply fleets = (op.run reply fleets).andThen reply next
  | done _ _, _ => rfl
  | warn n rest, fleets => by
      have ih := run_bind reply next rest fleets
      rw [run, Run.after_andThen, ← ih]
      rfl
  | call s i r k, fleets => by
      simp only [bind, bindIn, run, id]
      cases ho : (reply fleets i r).2.outcome with
      | none => rfl
      | some o =>
          have ih := run_bind reply next (k o) (reply fleets i r).1
          dsimp only
          rw [Run.after_andThen, ← ih]
          rfl

end Operation

namespace Group
open Provider (Error)

variable {g g₁ g' : Group} {nodes : List String} {node id : String} {es es₁ : List (Event Unit)}
  {v : Option (Except Error Unit)} {err : Error}

theorem deleteNodes_append (g : Group) (xs ys : List String) :
    g.deleteNodes (xs ++ ys) =
      (g.deleteNodes xs).bind fun g result =>
        match result with
        | .ok () => g.deleteNodes ys
        | .error e => .done g (.error e) := by
  induction xs generalizing g with
  | nil => rfl
  | cons node rest ih =>
      rw [List.cons_append, deleteNodes, deleteNodes]
      split
      · rfl
      · rw [byManager, byManager, bind_bindIn]
        congr
        funext m result
        cases result with
        | ok _ => exact ih _
        | error _ => rfl

/-- Fleets make of the deletion of some nodes what they make of the deletion of the first of them, and then, if it has
succeeded, of the others. -/
theorem run_deleteNodes_append {φ : Type} (g : Group) (xs ys : List String) (reply : Fleets φ Unit) (fleets : φ) :
    (g.deleteNodes (xs ++ ys)).run reply fleets =
      let r := (g.deleteNodes xs).run reply fleets
      if r.value = some (.ok ()) then ((r.state.deleteNodes ys).run reply r.fleets).after r.events else r := by
  rw [deleteNodes_append, run_bind]
  obtain ⟨f, t, v, es⟩ := (g.deleteNodes xs).run reply fleets
  rcases v with _ | e | _
  · rfl
  · simp [Run.andThen, run, Run.after]
  · rfl

/-! ## Where a deletion stops -/

/-- A unit of the node, which is marked by now and has not changed otherwise. -/
def Marked (g g' : Group) (node id : String) : Prop :=
  ∃ u, g.manager.unit? id = some u ∧ u.identity = node ∧ g'.manager.unit? id = some { u with phase := .deleting }

/-- A deletion that has come to `g'` fails at a node, and has made that call for it: only the fleet can fail in a call. -/
inductive FailsBy (g g' : Group) (node : String) : List (Event Unit) → Error → Prop
  | tooSmall : g'.target ≤ g'.minSize →
      FailsBy g g' node [] (.decreaseTooLarge g'.target (g'.target - 1) g'.minSize)
  | unknown : g'.minSize < g'.target → g'.manager.backing? node = none →
      FailsBy g g' node [] (.manager (.unitNotFound node))
  | refused {id e} : g'.minSize < g'.target → Marked g g' node id →
      FailsBy g g' node [.failed () (.destroyUnits [id] false false) (some e)] (.manager (.fleet e))

/-- A deletion has failed at a node after those before it. The target is lower by as many as these are, and there has been a
call for a unit of each of them. Only units are marked that there has been a call for. -/
structure StopsAt (g : Group) (before : List String) (node : String) (es : List (Event Unit)) (g' : Group)
    (err : Error) : Prop where
  target : g'.target + before.length = g.target
  calls : ∃ done last, Operation.calls es = done ++ last ∧ FailsBy g g' node last err ∧
    List.Forall₂ (fun node e => ∃ id removals, Marked g g' node id ∧
      e = .answered () (.destroyUnits [id] false false) removals) before done
  unit : ∀ id, g'.manager.unit? id = g.manager.unit? id ∨
    id ∈ asked es ∧ ∃ node' ∈ before ++ [node], Marked g g' node' id
  rest : g' = { g with target := g'.target, manager := { g.manager with units := g'.manager.units } }

/-- A unit that is to go away still is after a deletion. -/
theorem Deletes.deleting (h : Deletes g nodes es g' v) (hd : g.manager.Deleting id) : g'.manager.Deleting id := by
  induction h with
  | done | tooSmall | unknown => exact hd
  | refused => exact Manager.deleting_mark.mpr (.inr hd)
  | removed _ _ _ ih => exact ih (Manager.deleting_mark.mpr (.inr hd))

theorem Deletes.deleting_of_mem_asked (h : Deletes g nodes es g' v) (ha : id ∈ asked es) : g'.manager.Deleting id := by
  induction h with
  | done | tooSmall | unknown => cases ha
  | @refused _ _ _ j _ e =>
      obtain rfl : id = j := by simpa [asked, Event.asked] using ha
      exact Manager.deleting_mark.mpr (.inl rfl)
  | @removed g g' _ _ j u removals es _ _ _ hd ih =>
      rw [asked_removal, List.mem_append, List.mem_singleton] at ha
      rcases ha with rfl | ha
      · exact hd.deleting (Manager.deleting_mark.mpr (.inl rfl))
      · exact ih ha

theorem Deletes.unit?_of_notMem_asked (h : Deletes g nodes es g' v) (ha : id ∉ asked es) :
    g'.manager.unit? id = g.manager.unit? id := by
  induction h with
  | done | tooSmall | unknown => rfl
  | refused =>
      refine Manager.get?_units_mark.trans (if_neg fun hj => ha ?_)
      simp [asked, Event.asked, hj]
  | removed _ _ _ ih =>
      rw [asked_removal, List.mem_append, not_or, List.mem_singleton] at ha
      exact (ih ha.2).trans (Manager.get?_units_mark.trans (if_neg ha.1))

theorem Deleted.marked {u : TrackedUnit} (h : Deleted () g nodes es g') (hd : g'.manager.Deleting id)
    (hu : g.manager.unit? id = some u) : g'.manager.unit? id = some { u with phase := .deleting } := by
  rcases h.unit id with he | ⟨w, hw, -, he⟩
  · obtain ⟨w, hw, hp⟩ := hd
    obtain rfl := Option.some.inj (hu.symm.trans (he.symm.trans hw))
    rw [he, hu, ← hp]
  · rw [he, Option.some.inj (hw.symm.trans hu)]

theorem Deleted.marked_trans (h : Deleted () g nodes es g₁) (hm : Marked g₁ g' node id) : Marked g g' node id := by
  obtain ⟨u, hu, hn, hm⟩ := hm
  rcases h.unit id with he | ⟨w, hw, -, he⟩
  · exact ⟨u, he.symm.trans hu, hn, hm⟩
  · obtain rfl := Option.some.inj (he.symm.trans hu)
    exact ⟨w, hw, hn, hm⟩

theorem FailsAt.eq_or_mark (h : FailsAt g node es g' err) :
    g' = g ∨ ∃ id u, g.manager.backing? node = some (id, u) ∧ g' = { g with manager := g.manager.mark id u } := by
  cases h with
  | tooSmall | unknown => exact .inl rfl
  | refused _ hb => exact .inr ⟨_, _, hb, rfl⟩

theorem marked_mark {u : TrackedUnit} (hb : g.manager.backing? node = some (id, u)) :
    Marked g { g with manager := g.manager.mark id u } node id := by
  obtain ⟨hu, -, hn⟩ := Manager.backing?_eq_some hb
  exact ⟨u, hu, hn, Manager.get?_units_mark.trans (if_pos rfl)⟩

theorem FailsAt.unit? (h : FailsAt g node es g' err) (id : String) :
    g'.manager.unit? id = g.manager.unit? id ∨ Marked g g' node id := by
  obtain rfl | ⟨j, u, hb, rfl⟩ := h.eq_or_mark
  · exact .inl rfl
  · rcases unit?_mark g.manager j id u with hj | ⟨rfl, -⟩
    · exact .inl hj
    · exact .inr (marked_mark hb)

/-- A unit that has been marked before a deletion fails is so still. -/
theorem FailsAt.marked {node' : String} (h : FailsAt g₁ node' es g' err) (hm : Marked g g₁ node id) :
    Marked g g' node id := by
  obtain ⟨u, hu, hn, hm⟩ := hm
  refine ⟨u, hu, hn, ?_⟩
  rcases h.unit? id with he | ⟨w, hw, -, he⟩
  · exact he.trans hm
  · rw [he, Option.some.inj (hw.symm.trans hm)]

theorem FailsAt.failsBy (h : FailsAt g₁ node es g' err) (hd : Deleted () g nodes es₁ g₁) :
    FailsBy g g' node (calls es) err := by
  cases h with
  | tooSmall hg => exact .tooSmall hg
  | unknown hg hb => exact .unknown hg hb
  | refused hg hb => exact .refused hg (hd.marked_trans (marked_mark hb))

/-- The calls that have been answered are for units which are marked in the end, whatever has come after them. -/
theorem Deletes.forall₂_calls (h : Deletes g nodes es g₁ (some (.ok ())))
    (hm : ∀ node id, Marked g g₁ node id → Marked g g' node id) :
    List.Forall₂ (fun node e => ∃ id removals, Marked g g' node id ∧
      e = .answered () (.destroyUnits [id] false false) removals) nodes (calls es) := by
  have hc := ((List.forall₂_and_left ..).mpr ⟨fun _ he => he, h.deleted.calls.flip⟩).flip
  refine hc.imp fun node e => ?_
  rintro ⟨he, id, u, removals, hu, hn, rfl⟩
  have ha : id ∈ asked es := List.mem_flatMap.mpr ⟨_, List.mem_of_mem_filter he, List.mem_singleton_self id⟩
  exact ⟨id, removals, hm node id ⟨u, hu, hn, h.deleted.marked (h.deleting_of_mem_asked ha) hu⟩, rfl⟩

theorem Deletes.stopsAt (h : Deletes g nodes es g' (some (.error err))) :
    ∃ before node after, nodes = before ++ node :: after ∧ StopsAt g before node es g' err := by
  obtain ⟨before, node, after, g₁, es₁, es₂, rfl, rfl, hs, hf⟩ := h.exists_failsAt
  have hd := hs.deleted
  refine ⟨before, node, after, rfl, ?_, ⟨_, _, calls_append .., hf.failsBy hd, hs.forall₂_calls fun _ _ => hf.marked⟩,
    fun id => ?_, ?_⟩
  · obtain rfl | ⟨_, _, _, rfl⟩ := hf.eq_or_mark <;> exact hd.target
  · by_cases ha : id ∈ asked (es₁ ++ es₂)
    · rcases hf.unit? id with he | hm
      · rw [he]
        refine (hd.unit id).imp_right ?_
        rintro ⟨u, hu, hn, hm⟩
        exact ⟨ha, _, List.mem_append_left _ hn, u, hu, rfl, he.trans hm⟩
      · exact .inr ⟨ha, node, List.mem_append_right _ (List.mem_singleton_self node), hd.marked_trans hm⟩
    · exact .inl (h.unit?_of_notMem_asked ha)
  · obtain rfl | ⟨id, u, _, rfl⟩ := hf.eq_or_mark
    · exact hd.rest
    · exact congrArg (fun h : Group => { h with manager := h.manager.mark id u }) hd.rest

/-- To delete some nodes and then others is to delete the first, and then the others if that has succeeded: whatever the
fleet does, the group, the outcome, the calls and the warnings are the same. A deletion that fails has deleted the nodes
before one, and has not come to those behind it. -/
theorem deleteNodes_in_turn (g : Group) :
    (∀ (φ : Type) (reply : Fleets φ Unit) (fleets : φ) (xs ys : List String),
      (g.deleteNodes (xs ++ ys)).run reply fleets =
        let r := (g.deleteNodes xs).run reply fleets
        if r.value = some (.ok ()) then ((r.state.deleteNodes ys).run reply r.fleets).after r.events else r) ∧
    ∀ nodes es g' err, (g.deleteNodes nodes).Ends es g' (some (.error err)) →
      ∃ before node after, nodes = before ++ node :: after ∧ StopsAt g before node es g' err :=
  ⟨fun _ reply fleets xs ys => run_deleteNodes_append g xs ys reply fleets,
    fun _ _ _ _ h => (ends_deleteNodes.mp h).stopsAt⟩

/-- A node is to be deleted twice. The fleet removes its unit the first time and not the second. -/
def repeating : List Turn × Group :=
  play act Fleet.Script.one { destroyUnits := [{ outcome := some (.ok []) }, { outcome := some (.error (.decode "no JSON")) }] }
    pair [.delete ["n0", "n0", "n1"]]

theorem deleteNodes_in_turn_repeating :
    ∃ before node after, ["n0", "n0", "n1"] = before ++ node :: after ∧ before.length = 1 ∧
      StopsAt pair before node (eventsOf repeating.1) repeating.2 (.manager (.fleet (.decode "no JSON"))) := by
  have hs : Session act pair repeating.1 repeating.2 := session_play ..
  have h : Session act pair [_] repeating.2 := hs
  obtain ⟨before, node, after, hn, hstop⟩ := (deleteNodes_in_turn pair).2 _ _ _ _ h.head.2.1
  have ht : 1 + before.length = 2 := hstop.target
  exact ⟨before, node, after, hn, by omega, hstop⟩

end Group
end NodeGroups
