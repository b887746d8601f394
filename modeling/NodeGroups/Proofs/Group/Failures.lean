import NodeGroups.Proofs.FailFast
import NodeGroups.Proofs.Group.Registered

/-!
# Failures of a group

A group gives up at the first call that fails and passes the error on as it is. What it leaves is what it found, except that
a deletion keeps what it has done before, and a unit whose removal has failed is marked. Main statement: `failure_atomic`.
-/

namespace NodeGroups
open Operation

/-! ## Giving up at once -/

namespace Manager
open Fleet (Snapshot)

variable {α : Type} {m : Manager}

theorem failsFast_fetch {next : Snapshot → Op α} (h : ∀ s, (next s).FailsFast .fleet) :
    (m.fetch next).FailsFast .fleet :=
  ⟨fun _ => rfl, h⟩

theorem failsFast_scaleUp (m : Manager) (count : Nat) : (m.scaleUp count).FailsFast .fleet := by
  unfold scaleUp
  split
  · exact .of_done ..
  · refine failsFast_fetch fun before => ⟨fun _ => rfl, fun names => failsFast_fetch fun after => ?_⟩
    exact FailsFast.warnAll (.of_done ..) _

theorem failsFast_scaleDown (m : Manager) (node : String) : (m.scaleDown node).FailsFast .fleet := by
  unfold scaleDown scaleDownIn
  split
  · exact .of_done ..
  · exact ⟨fun _ => rfl, fun removals => FailsFast.warnAll (.of_done ..) _⟩

theorem failsFast_reconcile (m : Manager) : m.reconcile.FailsFast .fleet := failsFast_fetch fun _ => .of_done ..

end Manager

namespace Group
open Fleet (Request)
open Provider (Error)

variable {g g' : Group} {es : List (Event Unit)} {v : Option (Except Error Unit)} {err : Error}

/-- An error of the fleet as a group passes it on. -/
def relayed (e : Fleet.Error) : Error := .manager (.fleet e)

theorem failsFast_byManager {op : Manager.Op Unit} {next : Group → Op Unit} (h : op.FailsFast .fleet)
    (hn : ∀ g, (next g).FailsFast relayed) : (g.byManager op next).FailsFast relayed := by
  refine FailsFast.bindIn (fun m e => ?_) (fun m result => ?_) op h
  · rfl
  · cases result with
    | ok _ => exact hn _
    | error e => exact .of_done ..

theorem failsFast_act (c : Command) (g : Group) : (act c g).FailsFast relayed := by
  cases c with
  | increase delta =>
      simp only [act, increaseSize]
      split_ifs
      · exact .of_done ..
      · exact .of_done ..
      · exact .of_done ..
      · exact .of_done ..
      · exact failsFast_byManager (Manager.failsFast_scaleUp ..) fun _ => .of_done ..
  | delete nodes =>
      rw [act]
      induction nodes generalizing g with
      | nil => exact .of_done ..
      | cons node rest ih =>
          rw [deleteNodes]
          split
          · exact .of_done ..
          · exact failsFast_byManager (Manager.failsFast_scaleDown ..) fun _ => ih _
  | decrease delta =>
      simp only [act, decreaseTarget]
      split_ifs <;> exact .of_done ..
  | refresh =>
      rw [act, refresh]
      exact failsFast_byManager (Manager.failsFast_reconcile _) fun _ => .of_done ..

/-! ## What a failure leaves -/

theorem Increases.eq_of_error {delta : Nat} (h : Increases g delta es g' (some (.error err))) : g' = g := by
  generalize hv : some (Except.error err) = v at h
  cases h with
  | invalid | tooLarge | failed => rfl
  | grown => cases hv

theorem Decreases.eq_of_error {delta : Nat} (h : Decreases g delta es g' (some (.error err))) : g' = g := by
  generalize hv : some (Except.error err) = v at h
  cases h with
  | invalid | tooSmall | registered => rfl
  | lowered => cases hv

theorem Refreshes.eq_of_error (h : Refreshes g es g' (some (.error err))) : g' = g := by
  generalize hv : some (Except.error err) = v at h
  cases h with
  | failed => rfl
  | renewed => cases hv

/-- How a deletion fails at a node: the group is at its minimum or does not know the node, and stays as it is, or the fleet
does not remove the unit of the node, which then is marked and nothing else is changed. -/
inductive FailsAt (g : Group) (node : String) : List (Event Unit) → Group → Error → Prop
  | tooSmall : g.target ≤ g.minSize → FailsAt g node [] g (.decreaseTooLarge g.target (g.target - 1) g.minSize)
  | unknown : g.minSize < g.target → g.manager.backing? node = none →
      FailsAt g node [] g (.manager (.unitNotFound node))
  | refused {id u e} : g.minSize < g.target → g.manager.backing? node = some (id, u) →
      FailsAt g node [.failed () (.destroyUnits [id] false false) (some e)]
        { g with manager := { g.manager with units := g.manager.units.insert id { u with phase := .deleting } } }
        (.manager (.fleet e))

/-- A deletion that fails has succeeded for the nodes before the one at which it fails. -/
theorem Deletes.exists_failsAt {nodes : List String} (h : Deletes g nodes es g' (some (.error err))) :
    ∃ before node after g₁ es₁ es₂, nodes = before ++ node :: after ∧ es = es₁ ++ es₂ ∧
      Deletes g before es₁ g₁ (some (.ok ())) ∧ FailsAt g₁ node es₂ g' err := by
  generalize hv : some (Except.error err) = v at h
  induction h with
  | done => cases hv
  | tooSmall hg =>
      cases hv
      exact ⟨[], _, _, _, [], _, rfl, rfl, .done, .tooSmall hg⟩
  | unknown hg hb =>
      cases hv
      exact ⟨[], _, _, _, [], _, rfl, rfl, .done, .unknown hg hb⟩
  | @refused _ _ _ _ _ e hg hb =>
      cases e with
      | none => cases hv
      | some e =>
          cases hv
          exact ⟨[], _, _, _, [], _, rfl, rfl, .done, .refused hg hb⟩
  | @removed _ _ node _ _ _ _ _ _ hg hb _ ih =>
      obtain ⟨before, node', after, g₁, es₁, es₂, rfl, rfl, hd, hf⟩ := ih hv
      exact ⟨node :: before, node', after, g₁, _, es₂, rfl, (List.append_assoc ..).symm, .removed hg hb hd, hf⟩

/-- At whichever call of whichever operation a group gets an error, it passes the error on as it is, and that is the end of
the operation. An operation that fails, for this or another reason, changes nothing unless it is a deletion. A deletion that
fails has succeeded for some nodes, and has then failed at one node without a change but for the mark of its unit. -/
theorem failure_atomic (g : Group) :
    (∀ c es r e es' g' v, (act c g).Ends (es ++ .failed () r (some e) :: es') g' v →
      v = some (.error (.manager (.fleet e))) ∧ es' = []) ∧
    (∀ c es g' err, (act c g).Ends es g' (some (.error err)) → (∀ nodes, c ≠ .delete nodes) → g' = g) ∧
    ∀ nodes es g' err, (act (.delete nodes) g).Ends es g' (some (.error err)) →
      ∃ before node after g₁ es₁ es₂, nodes = before ++ node :: after ∧ es = es₁ ++ es₂ ∧
        (act (.delete before) g).Ends es₁ g₁ (some (.ok ())) ∧ FailsAt g₁ node es₂ g' err := by
  refine ⟨fun c es r e es' g' v h => ?_, fun c es g' err h hc => ?_, fun nodes es g' err h => ?_⟩
  · obtain ⟨hv, hes, -⟩ := (failsFast_act c g).ends h
    exact ⟨hv, hes⟩
  · cases c with
    | increase delta => exact (ends_increaseSize.mp h).eq_of_error
    | delete nodes => exact absurd rfl (hc nodes)
    | decrease delta => exact (ends_decreaseTarget.mp h).eq_of_error
    | refresh => exact (ends_refresh.mp h).eq_of_error
  · obtain ⟨before, node, after, g₁, es₁, es₂, hn, hes, hd, hf⟩ := (ends_deleteNodes.mp h).exists_failsAt
    exact ⟨before, node, after, g₁, es₁, es₂, hn, hes, ends_deleteNodes.mpr hd, hf⟩

def pair : Group := .ofManager ⟨0, 5, "m", "app"⟩ (.ofSnapshot .hostname "m" "app" twoUnits)

/-- The fleet adds a unit and has no status to show for it. Later it removes the unit of one node and not the next. -/
def failing : List Turn × Group :=
  play act Fleet.Script.one
    { status := [{ outcome := some (.ok twoUnits) }, { outcome := some (.error (.decode "no JSON")) }]
      addUnits := [{ outcome := some (.ok ["app/2"]) }]
      destroyUnits := [{ outcome := some (.ok []) }, { outcome := some (.error (.decode "no JSON")) }] }
    pair [.increase 1, .delete ["n0", "n1", "n2"]]

theorem failure_atomic_failing :
    ∃ d d', failing.1 = [d, d'] ∧ d.value = some (.error (.manager (.fleet (.decode "no JSON")))) ∧ d.after = pair ∧
      ∃ before node after g₁ es₁ es₂, ["n0", "n1", "n2"] = before ++ node :: after ∧ d'.events = es₁ ++ es₂ ∧
        (act (.delete before) pair).Ends es₁ g₁ (some (.ok ())) ∧
          FailsAt g₁ node es₂ d'.after (.manager (.fleet (.decode "no JSON"))) := by
  have hs : Session act pair failing.1 failing.2 := session_play ..
  have h : Session act pair [_, _] failing.2 := hs
  obtain ⟨-, he, h'⟩ := h.head
  obtain ⟨-, he', -⟩ := h'.head
  have hv := ((failure_atomic pair).1 _
    [.answered () (.status ["app"]) twoUnits, .answered () (.addUnits "app" 1) ["app/2"]] _ _ _ _ _ he).1
  exact ⟨_, _, rfl, hv, (failure_atomic pair).2.1 _ _ _ _ he nofun, (failure_atomic pair).2.2 _ _ _ _ he'⟩

end Group
end NodeGroups
