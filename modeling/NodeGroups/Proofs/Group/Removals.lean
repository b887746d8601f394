import NodeGroups.Proofs.Group.Ending
import NodeGroups.Proofs.Manager.Listed

/-!
# Removals by a group

A group asks its fleet to remove a unit only for a node that it is told to delete, and only as long as the target is above
the minimum. Main statement: `asks_destroyUnits`.
-/

namespace NodeGroups.Group
open Fleet (Request)
open Operation

variable {g g' : Group} {es es' : List (Event Unit)} {v : Option (Except Provider.Error Unit)}

/-! ## Tracked units have been listed -/

theorem known_of_ends {c : Command} (h : g.manager.Known es) (he : (act c g).Ends es' g' v) :
    g'.manager.Known (es ++ es') := by
  cases c with
  | increase delta =>
      cases ends_increaseSize.mp he with
      | invalid | tooLarge => exact h.append _
      | failed _ _ hs | grown _ _ hs => exact h.scalesUp hs
  | delete nodes =>
      replace he := ends_deleteNodes.mp he
      induction he generalizing es with
      | done | tooSmall | unknown => exact h.append _
      | refused _ hb => exact (h.mark (Manager.backing?_eq_some hb).1).append _
      | removed _ hb _ ih =>
          rw [← List.append_assoc]
          exact ih ((h.mark (Manager.backing?_eq_some hb).1).append _)
  | decrease delta => cases ends_decreaseTarget.mp he <;> exact h.append _
  | refresh =>
      cases ends_refresh.mp he with
      | failed => exact h.append _
      | renewed => exact .reconciled (List.mem_append_right _ List.mem_cons_self)

theorem known_of_session {steps : List Turn} (h : g.manager.Known es) (hs : Session act g steps g') :
    g'.manager.Known (es ++ eventsOf steps) := by
  induction hs with
  | idle => exact h.append _
  | step _ he ih =>
      rw [eventsOf, List.flatMap_append, List.flatMap_singleton, ← List.append_assoc]
      exact known_of_ends ih he

/-! ## Calls -/

/-- The request is to remove a unit of the node, which is marked already, while the target is above the minimum. -/
structure Removes (g : Group) (node id : String) (r : Request) : Prop where
  request : r = .destroyUnits [id] false false
  minSize_lt : g.minSize < g.target
  marked : ∃ u, g.manager.units.get? id = some u ∧ u.identity = node ∧ u.phase = .deleting

theorem removes_mark {node id : String} {u : TrackedUnit} (hg : g.minSize < g.target)
    (hb : g.manager.backing? node = some (id, u)) :
    Removes { g with manager := g.manager.mark id u } node id (.destroyUnits [id] false false) where
  request := rfl
  minSize_lt := hg
  marked := by
    refine ⟨{ u with phase := .deleting }, ?_, (Manager.backing?_eq_some hb).2.2, rfl⟩
    rw [Manager.get?_units_mark, if_pos rfl]

/-- Each call of a deletion is for the node whose turn it is: as many have been asked for before. -/
theorem Deletes.asks {nodes : List String} {r : Request} (h : Deletes g nodes (es ++ [.call () r none]) g' none) :
    ∃ node id, nodes[(asked es).length]? = some node ∧ Removes g' node id r := by
  generalize hes : es ++ [.call () r none] = es₀ at h
  generalize hv : none = v at h
  induction h generalizing es with
  | done | tooSmall | unknown => cases hv
  | @refused g node rest id u e hg hb =>
      obtain ⟨rfl, he⟩ := List.append_inj' (hes.trans (List.nil_append _).symm) rfl
      cases e with
      | some _ => cases hv
      | none =>
          cases he
          exact ⟨node, id, rfl, removes_mark hg hb⟩
  | @removed g g' node rest id u removals es₁ v hg hb hd ih =>
      subst hv
      -- the call comes after this removal, for the rest of the nodes has broken off in it
      obtain ⟨es₂, _, _, rfl⟩ := (ends_deleteNodes.mpr hd).exists_of_none
      rw [← List.append_assoc] at hes
      obtain ⟨rfl, he⟩ := List.append_inj' hes rfl
      obtain ⟨node', id', hn, hr⟩ := ih (congrArg _ he) rfl
      refine ⟨node', id', ?_, hr⟩
      rw [asked_removal]
      exact hn

theorem isRemoval_of_ends {c : Command} (he : (act c g).Ends es g' v) (hc : ∀ nodes, c ≠ .delete nodes) :
    ∀ e ∈ es, e.isRemoval = false := by
  cases c with
  | increase delta =>
      cases ends_increaseSize.mp he with
      | invalid | tooLarge => simp
      | failed _ _ hs | grown _ _ hs => exact hs.isRemoval
  | delete nodes => exact absurd rfl (hc nodes)
  | decrease delta => cases ends_decreaseTarget.mp he <;> simp
  | refresh => cases ends_refresh.mp he <;> simp [Event.isRemoval]

theorem asks_destroyUnits {c : Command} {units : List String} {storage force : Bool}
    (h : (act c g).Asks es () (.destroyUnits units storage force) g') :
    ∃ nodes node id, c = .delete nodes ∧ nodes[(asked es).length]? = some node ∧
      Removes g' node id (.destroyUnits units storage force) := by
  by_cases hc : ∃ nodes, c = .delete nodes
  · obtain ⟨nodes, rfl⟩ := hc
    obtain ⟨node, id, hn, hr⟩ := (ends_deleteNodes.mp h).asks
    exact ⟨nodes, node, id, rfl, hn, hr⟩
  · have hn := isRemoval_of_ends h (fun nodes hd => hc ⟨nodes, hd⟩) _ (List.mem_append_right _ List.mem_cons_self)
    cases hn

end NodeGroups.Group
