import Mathlib.Data.List.Forall2
import NodeGroups.Proofs.Calls
import NodeGroups.Proofs.Group.Failures

/-!
# What a deletion has done

A deletion gets through some of its nodes. For each of these the fleet has been asked once to remove the node's unit, and
no other unit is marked. Main statement: `Deletes.deleted`.
-/

namespace NodeGroups.Group
open Operation

variable {ι κ : Type} {i : ι} {g g' : Group} {node id : String} {nodes : List String} {u : TrackedUnit}

/-- The nodes have been deleted from a group. The fleet has answered a call for a unit of each of them, and no other call;
the target is lower by as many, and only units of these nodes are marked that have not been. -/
structure Deleted (i : ι) (g : Group) (nodes : List String) (es : List (Event ι)) (g' : Group) : Prop where
  calls : List.Forall₂ (fun node e => ∃ id u removals, g.manager.unit? id = some u ∧ u.identity = node ∧
    e = .answered i (.destroyUnits [id] false false) removals) nodes (calls es)
  target : g'.target + nodes.length = g.target
  unit : ∀ id, g'.manager.unit? id = g.manager.unit? id ∨ ∃ u, g.manager.unit? id = some u ∧ u.identity ∈ nodes ∧
    g'.manager.unit? id = some { u with phase := .deleting }
  rest : g' = { g with target := g'.target, manager := { g.manager with units := g'.manager.units } }

theorem Deleted.map {es : List (Event ι)} (h : Deleted i g nodes es g') (fleet : ι → κ) :
    Deleted (fleet i) g nodes (es.map (Event.map fleet)) g' where
  calls := by
    rw [calls_map, List.forall₂_map_right_iff]
    refine h.calls.imp fun node e => ?_
    rintro ⟨id, u, removals, hu, hn, rfl⟩
    exact ⟨id, u, removals, hu, hn, rfl⟩
  target := h.target
  unit := h.unit
  rest := h.rest

theorem calls_removal (removals : List Fleet.Removal) (ns : List Notice) (es : List (Event Unit)) :
    calls (.answered () (.destroyUnits [id] false false) removals :: ns.map .warn ++ es) =
      .answered () (.destroyUnits [id] false false) removals :: calls es := by
  rw [calls_append, calls, List.filter_cons_of_pos rfl, ← calls, calls_map_warn]
  rfl

theorem unit?_mark (m : Manager) (id j : String) (u : TrackedUnit) :
    (m.mark id u).unit? j = m.unit? j ∨ j = id ∧ (m.mark id u).unit? j = some { u with phase := .deleting } := by
  rw [Manager.unit?, Manager.get?_units_mark]
  split
  · next hj => exact .inr ⟨hj, rfl⟩
  · exact .inl rfl

/-- A deletion that has succeeded has got through all of its nodes. -/
theorem Deletes.deleted {es : List (Event Unit)} (h : Deletes g nodes es g' (some (.ok ()))) :
    Deleted () g nodes es g' := by
  generalize hv : some (Except.ok ()) = v at h
  induction h with
  | done => exact ⟨.nil, rfl, fun _ => .inl rfl, rfl⟩
  | tooSmall | unknown => cases hv
  | @refused _ _ _ _ _ e => cases e <;> cases hv
  | @removed g g' node rest id u removals es v hg hb _ ih =>
      obtain ⟨hu, -, rfl⟩ := Manager.backing?_eq_some hb
      have hd := ih hv
      -- the first removal leaves every unit its name, so the others are for units of the same nodes in `g`
      refine ⟨?_, ?_, fun j => ?_, hd.rest⟩
      · rw [calls_removal]
        refine .cons ⟨id, u, removals, hu, rfl, rfl⟩ (hd.calls.imp fun node e => ?_)
        rintro ⟨j, w, removals', hw, hn, rfl⟩
        rcases unit?_mark g.manager id j u with hj | ⟨rfl, hj⟩
        · exact ⟨j, w, removals', hj.symm.trans hw, hn, rfl⟩
        · obtain rfl := Option.some.inj (hj.symm.trans hw)
          exact ⟨j, u, removals', hu, hn, rfl⟩
      · have ht := hd.target
        simp only [List.length_cons] at ht ⊢
        omega
      · rcases unit?_mark g.manager id j u with hj | ⟨rfl, hj⟩
        · have hj' := hd.unit j
          simp only [hj] at hj'
          refine hj'.imp_right ?_
          rintro ⟨w, hw, hn, hd⟩
          exact ⟨w, hw, List.mem_cons_of_mem _ hn, hd⟩
        · refine .inr ⟨u, hu, List.mem_cons_self, ?_⟩
          rcases hd.unit j with hd | ⟨w, hw, -, hd⟩
          · exact hd.trans hj
          · obtain rfl := Option.some.inj (hj.symm.trans hw)
            exact hd

theorem Deleted.congr {es es' : List (Event ι)} (h : Deleted i g nodes es g') (he : Operation.calls es' = Operation.calls es) :
    Deleted i g nodes es' g' :=
  { h with calls := he ▸ h.calls }

/-- A deletion that fails for no fault of the fleet has got through the nodes before one that it cannot delete. -/
theorem Deletes.deleted_of_error {es : List (Event Unit)} {err : Provider.Error}
    (h : Deletes g nodes es g' (some (.error err))) (he : ∀ e, err ≠ .manager (.fleet e)) :
    ∃ before node after, nodes = before ++ node :: after ∧ Deleted () g before es g' ∧
      (g'.target ≤ g'.minSize ∨ g'.manager.backing? node = none) := by
  obtain ⟨before, node, after, g₁, es₁, es₂, rfl, rfl, hd, hf⟩ := h.exists_failsAt
  refine ⟨before, node, after, rfl, ?_⟩
  cases hf with
  | tooSmall hg =>
      rw [List.append_nil]
      exact ⟨hd.deleted, .inl hg⟩
  | unknown _ hb =>
      rw [List.append_nil]
      exact ⟨hd.deleted, .inr hb⟩
  | @refused _ _ e => exact absurd rfl (he e)

end NodeGroups.Group
