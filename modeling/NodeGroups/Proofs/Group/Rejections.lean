import NodeGroups.Proofs.Group.Failures

/-!
# Rejected removals

A fleet can refuse a removal with an error of the call, or with an error for the unit in an answer to it. A group hears of
the first only. An error in an answer is warned of, and the target is lowered as if there were none. Main statement:
`target_of_deletion`.
-/

namespace NodeGroups
open Operation

namespace Operation.Event

variable {ι : Type}

/-- The fleet has accepted a request to remove units, whatever it says of them. -/
def isAccepted : Event ι → Bool
  | .call _ (.destroyUnits ..) (some (.ok _)) => true
  | _ => false

/-- The fleet has accepted a request to remove units, and has no error for any of them. -/
def isGranted (e : Event ι) : Bool := e.isAccepted && e.asked.all e.removes

/-- The warnings that the answer to a request to remove units gives rise to. -/
def rejections : Event ι → List Notice
  | .call _ (.destroyUnits ..) (some (.ok removals)) => Manager.rejections removals
  | _ => []

end Operation.Event

namespace Operation

variable {ι : Type}

theorem countP_isAccepted (es : List (Event ι)) :
    es.countP (·.isAccepted) = es.countP (·.isGranted) + es.countP fun e => e.isAccepted && !e.isGranted := by
  induction es with
  | nil => rfl
  | cons e es ih =>
      simp only [List.countP_cons, ih, Event.isGranted]
      cases e.isAccepted <;> cases e.asked.all e.removes <;> simp <;> omega

theorem countP_isAccepted_removal (i : ι) (units : List String) (removals : List Fleet.Removal) (ns : List Notice)
    (es : List (Event ι)) :
    List.countP Event.isAccepted (.answered i (.destroyUnits units false false) removals :: ns.map .warn ++ es) =
      es.countP (·.isAccepted) + 1 := by
  have hw : (ns.map (Event.warn (ι := ι))).countP (·.isAccepted) = 0 := by
    simp [List.countP_map, Event.isAccepted, Function.comp_def]
  rw [List.countP_append, List.countP_cons_of_pos rfl, hw, Nat.zero_add, Nat.add_comm]

end Operation

namespace Group

variable {g g' : Group} {nodes : List String} {es : List (Event Unit)} {v : Option (Except Provider.Error Unit)}

theorem Deletes.countP_isAccepted (h : Deletes g nodes es g' v) : g'.target + es.countP (·.isAccepted) = g.target := by
  induction h with
  | done | tooSmall | unknown => rfl
  | @refused _ _ _ _ _ e => cases e <;> rfl
  | removed hg _ _ ih =>
      rw [countP_isAccepted_removal]
      dsimp only at ih
      omega

theorem Deletes.notices (h : Deletes g nodes es g' v) : es.filterMap Event.notice? = es.flatMap Event.rejections := by
  induction h with
  | done | tooSmall | unknown => rfl
  | @refused _ _ _ _ _ e => cases e <;> rfl
  | @removed _ _ _ _ _ _ removals es _ _ _ _ ih =>
      rw [List.filterMap_append, List.flatMap_append, ih]
      congr 1
      rw [List.filterMap_cons_none rfl, List.flatMap_cons]
      simp [Event.notice?, Event.rejections, List.flatMap_map, Function.comp_def]

/-- A deletion lowers the target by one for each request to remove a unit that the fleet has accepted, whether or not it has
an error for the unit. So these requests are as many as the removals that the fleet has granted just if no answer has such an
error. Of every error in an answer there is a warning, and no other. -/
theorem target_of_deletion (h : (g.deleteNodes nodes).Ends es g' v) :
    g'.target + es.countP (·.isAccepted) = g.target ∧
      (g.target ≤ g'.target + es.countP (·.isGranted) ↔ ∀ e ∈ es, e.isAccepted = true → e.isGranted = true) ∧
        es.filterMap Event.notice? = es.flatMap Event.rejections := by
  have hd := ends_deleteNodes.mp h
  have ht := hd.countP_isAccepted
  refine ⟨ht, ?_, hd.notices⟩
  have hs := countP_isAccepted es
  have hz : es.countP (fun e => e.isAccepted && !e.isGranted) = 0 ↔
      ∀ e ∈ es, e.isAccepted = true → e.isGranted = true := by
    simp [List.countP_eq_zero]
  rw [← hz]
  omega

/-- The fleet accepts the first removal with an error for the unit, and refuses the second. -/
def rejecting : List Turn × Group :=
  play act Fleet.Script.one
    { destroyUnits := [{ outcome := some (.ok [⟨"app/0", some "in use"⟩]) },
        { outcome := some (.error (.transport "timed out")) }] }
    pair [.delete ["n0", "n1"]]

theorem ends_rejecting : ∃ v, (pair.deleteNodes ["n0", "n1"]).Ends (eventsOf rejecting.1) rejecting.2 v := by
  have hs : Session act pair rejecting.1 rejecting.2 := session_play ..
  have h : Session act pair [_] rejecting.2 := hs
  exact ⟨_, h.head.2.1⟩

theorem target_of_deletion_rejecting :
    rejecting.2.target + 1 = 2 ∧ ¬ 2 ≤ rejecting.2.target + (eventsOf rejecting.1).countP (·.isGranted) := by
  obtain ⟨v, h⟩ := ends_rejecting
  obtain ⟨ht, hg, -⟩ := target_of_deletion h
  exact ⟨ht, fun hl => absurd (hg.mp hl) (by decide)⟩

/-- No removal is granted, but the target is lowered by one. -/
theorem granted_lt_lowered_rejecting : ¬ ∀ (g g' : Group) (nodes : List String) (es : List (Event Unit))
    (v : Option (Except Provider.Error Unit)), (g.deleteNodes nodes).Ends es g' v →
      g.target ≤ g'.target + es.countP (·.isGranted) := by
  intro h
  obtain ⟨v, he⟩ := ends_rejecting
  exact absurd (h _ _ _ _ _ he) (by decide)

end Group
end NodeGroups
