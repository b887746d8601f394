import NodeGroups.Fleet.Script
import NodeGroups.Proofs.Group.Registered
import NodeGroups.Proofs.Group.Removals
import NodeGroups.Proofs.Provider.Ending

/-!
# Removals by a provider

Whatever the fleets answer, a provider asks for a removal only to delete a node, and only of a unit that the fleet of the
node's group has listed. Main statement: `removal_deletes_node`.
-/

namespace NodeGroups.Provider
open Fleet (IdentitySource Snapshot)
open Operation

variable {p p' : Provider} {es es' : List (Event Nat)} {v : Option (Except Error Unit)}

/-! ## Tracked units have been listed -/

/-- Each unit that a group tracks is listed by one of the snapshots that have come in from the fleet of the group. -/
def Known (groups : List Group) (es : List (Event Nat)) : Prop :=
  ∀ i (g : Group), groups[i]? = some g → g.manager.Known (callsTo i es)

theorem known_nil : Known [] [] := by
  intro i g hg
  cases hg

theorem Known.add {groups : List Group} {spec : Spec} {source : IdentitySource} {s : Snapshot} (h : Known groups es) :
    Known (groups ++ [.ofManager spec (.ofSnapshot source spec.model spec.application s)])
      (es ++ [.answered groups.length (.status [spec.application]) s]) := by
  intro i g hg
  rw [List.getElem?_append] at hg
  split at hg
  · rw [callsTo_append]
    exact (h i g hg).append _
  · next hi =>
    rw [List.getElem?_singleton] at hg
    split at hg
    · next hz =>
      obtain rfl : i = groups.length := by omega
      cases hg
      exact .ofSnapshot (mem_callsTo_iff.mpr (List.mem_append_right _ List.mem_cons_self))
    · cases hg

theorem Known.starts {source : IdentitySource} {groups : List Group} {specs : List Spec} (h : Known groups es)
    (hs : Starts source groups specs es' (some (.ok p))) : Known p.groups (es ++ es') := by
  generalize hw : some (Except.ok p) = w at hs
  induction hs generalizing es with
  | done =>
      cases hw
      rwa [List.append_nil]
  | @failed _ _ _ e => cases e <;> cases hw
  | added _ ih =>
      rw [List.append_cons]
      exact ih h.add hw

theorem Known.advances {before after : List Group} (h : Known before es) (ha : Advances before es' after) :
    Known after (es ++ es') := by
  intro i g hg
  have hi : i < before.length := by
    rw [← ha.length_eq]
    exact (List.getElem?_eq_some_iff.mp hg).1
  have hf := List.getElem?_eq_getElem hi
  obtain ⟨steps, g', hs, hg', hc⟩ := ha.session i _ hf
  obtain rfl := Option.some.inj (hg.symm.trans hg')
  rw [callsTo_append, hc]
  exact (Group.known_of_session (h i _ hf) hs).of_callsTo

/-! ## Calls -/

theorem Starts.isRemoval {source : IdentitySource} {groups : List Group} {specs : List Spec}
    {w : Option (Except Error Provider)} (h : Starts source groups specs es w) : ∀ e ∈ es, e.isRemoval = false := by
  induction h with
  | done => simp
  | failed => simp [Event.isRemoval]
  | added _ ih => exact List.forall_mem_cons.mpr ⟨rfl, ih⟩

theorem RefreshesFrom.isRemoval {before rest : List Group} {failure : Option Error}
    (h : RefreshesFrom before failure rest es p' v) : ∀ e ∈ es, e.isRemoval = false := by
  induction h with
  | done => simp
  | brokenOff => simp [Event.isRemoval]
  | failed _ ih => exact List.forall_mem_cons.mpr ⟨rfl, List.forall_mem_cons.mpr ⟨rfl, ih⟩⟩
  | renewed _ ih => exact List.forall_mem_cons.mpr ⟨rfl, ih⟩

/-- A call of a provider for a removal is a call of the group that is to delete the node. -/
theorem asks_destroyUnits {c : Command} {i : Nat} {units : List String} {storage force : Bool}
    (h : (act c p).Asks es i (.destroyUnits units storage force) p') :
    ∃ gid nodes node g id, c = .on gid (.delete nodes) ∧ p.placeOf? gid = some i ∧
      nodes[(asked es).length]? = some node ∧ p'.groups[i]? = some g ∧
      g.Removes node id (.destroyUnits units storage force) := by
  cases c with
  | on gid c =>
      rcases onGroup_eq p gid (Group.act c) with ho | ⟨j, g, hj, hg, ho⟩ <;> rw [act, ho] at h
      · cases (ends_done.mp h).2.2
      · obtain ⟨es', _, g', ha, rfl, rfl, rfl⟩ := asks_within.mp h
        obtain ⟨nodes, node, id, rfl, hn, hr⟩ := Group.asks_destroyUnits ha
        refine ⟨gid, nodes, node, g', id, rfl, hj, ?_, ?_, hr⟩
        · rw [asked_map, hn]
        · rw [List.getElem?_set_self (List.getElem?_eq_some_iff.mp hg).1]
  | refresh =>
      have hn := (ends_refreshFrom.mp h).isRemoval _ (List.mem_append_right _ List.mem_cons_self)
      cases hn

/-- A start asks for no removal. After it each call for a removal is made to delete a node, at the fleet of the group that
the node is to be deleted from. It is for one unit of that node, which the group tracks and has marked already, while the
group has more units to go than it must keep; and the same fleet has listed the unit before. -/
theorem removal_deletes_node {source : IdentitySource} {specs : List Spec} {es₀ : List (Event Nat)}
    {w : Option (Except Error Provider)} (h₀ : (start source specs).Ends es₀ () w) :
    (∀ e ∈ es₀, e.isRemoval = false) ∧
      ∀ p₀ before d after p, w = some (.ok p₀) → Session act p₀ (before ++ d :: after) p →
        ∀ es i units storage force o es', d.events = es ++ .call i (.destroyUnits units storage force) o :: es' →
          ∃ gid nodes node q g id, d.command = .on gid (.delete nodes) ∧ d.before.placeOf? gid = some i ∧
            nodes[(asked es).length]? = some node ∧
            (act d.command d.before).Asks es i (.destroyUnits units storage force) q ∧ q.groups[i]? = some g ∧
            g.Removes node id (.destroyUnits units storage force) ∧
            ∃ s, .answered i (.status [g.manager.application]) s ∈ es₀ ++ eventsOf before ++ es ∧
              s.lists g.manager.application id = true := by
  have hs := ends_startFrom.mp h₀
  refine ⟨hs.isRemoval, ?_⟩
  rintro p₀ before d after p rfl h es i units storage force o es' hes
  rw [List.append_cons] at h
  obtain ⟨_, hb, -⟩ := h.split
  obtain ⟨hb, he, -⟩ := hb.last rfl
  rw [hes] at he
  obtain ⟨q, ha⟩ := he.exists_asks
  obtain ⟨gid, nodes, node, g, id, hc, hp, hn, hg, hr⟩ := asks_destroyUnits ha
  refine ⟨gid, nodes, node, q, g, id, hc, hp, hn, ha, hg, hr, ?_⟩
  -- every tracked unit has been listed by the time of the call, which is no answer to a request for the status
  have hk := ((known_nil.starts hs).advances (advances_of_session hb)).advances (advances_of_ends ha)
  obtain ⟨u, hu, -⟩ := hr.marked
  obtain ⟨s, hm, hl⟩ := hk i g hg id u hu
  refine ⟨s, ?_, hl⟩
  simpa [mem_callsTo_iff, or_assoc] using hm

/-- What has been asked to set up two groups, of one unit and of two. -/
def settingUp : List (Event Nat) :=
  [.answered 0 (.status ["app"]) Manager.oneUnit, .answered 1 (.status ["app"]) Group.twoUnits]

def twoGroups : Provider where
  groups :=
    [.ofManager ⟨0, 5, "m", "app"⟩ (.ofSnapshot .hostname "m" "app" Manager.oneUnit),
      .ofManager ⟨0, 5, "k", "app"⟩ (.ofSnapshot .hostname "k" "app" Group.twoUnits)]

theorem ends_start_twoGroups :
    (start .hostname [⟨0, 5, "m", "app"⟩, ⟨0, 5, "k", "app"⟩]).Ends settingUp () (some (.ok twoGroups)) :=
  ends_startFrom.mpr (.added (.added .done))

/-- Nodes of the second group are deleted. The first group has a node of the name n0, too. -/
def removing (nodes : List String) : List Turn × Provider :=
  play act Fleet.Script.row [{}, { destroyUnits := [{ outcome := some (.ok []) }, { outcome := some (.ok []) }] }] twoGroups
    [.on "juju-k-app" (.delete nodes)]

theorem session_removing (nodes : List String) : Session act twoGroups (removing nodes).1 (removing nodes).2 :=
  session_play ..

theorem removal_deletes_node_removing :
    ∃ (g : Group) (id : String), g.Removes "n1" id (.destroyUnits ["app/1"] false false) ∧
      ∃ s, .answered 1 (.status [g.manager.application]) s ∈
          settingUp ++ [.answered 1 (.destroyUnits ["app/0"] false false) []] ∧
        s.lists g.manager.application id = true := by
  have h : Session act twoGroups ([] ++ _ :: []) _ := session_removing ["n0", "n1"]
  obtain ⟨gid, nodes, node, q, g, id, hc, -, hn, -, -, hr, hs⟩ :=
    (removal_deletes_node ends_start_twoGroups).2 _ _ _ _ _ rfl h
      [.answered 1 (.destroyUnits ["app/0"] false false) []] 1 ["app/1"] false false (some (.ok [])) [] rfl
  cases hc
  cases hn
  exact ⟨g, id, hr, hs⟩

end NodeGroups.Provider
