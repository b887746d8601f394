import NodeGroups.Proofs.Calls
import NodeGroups.Proofs.Manager.Names
import NodeGroups.Provider

/-!
# Views of a node

A look-up, a removal and the list of the nodes each go over the tracked units with a condition of their own, and no order of
the units is theirs. As long as no two units have one name they agree on every node. Main statement: `views_agree`.
-/

namespace NodeGroups
open Operation

namespace Manager

variable {m m' : Manager} {id node : String} {u : TrackedUnit} {scan : List (String × TrackedUnit)}
  {es : List (Event Unit)} {v : Option (Except Error Unit)}

/-! ## Look-ups -/

theorem named_of_lookup? (h : m.lookup? node = some (id, u)) :
    m.unit? id = some u ∧ u.isResolved = true ∧ u.identity = node :=
  backing?_eq_some ((backing?_eq_lookup? ..).trans h)

theorem isSome_lookup?_iff : (m.lookup? node).isSome = true ↔ ∃ id, m.Named id node := by
  rw [← backing?_eq_lookup?, backing?, backingIn, List.find?_isSome]
  constructor
  · rintro ⟨⟨id, u⟩, hm, hp⟩
    simp only [Bool.and_eq_true, beq_iff_eq] at hp
    exact ⟨id, u, Table.mem_entries_iff.mp hm, hp⟩
  · rintro ⟨id, u, hu, hr, hn⟩
    exact ⟨(id, u), Table.mem_entries_iff.mpr hu, by simp [hr, hn]⟩

/-! ## Removals -/

theorem ScalesDown.eq_unitNotFound_iff (h : ScalesDown m node es m' v) :
    v = some (.error (.unitNotFound node)) ↔ (m.lookup? node).isSome = false := by
  rw [← backing?_eq_lookup?]
  cases h with
  | unknown hb => simp [hb]
  | @refused _ _ e hb => cases e <;> simp [hb, unanswered]
  | accepted hb => simp [hb]

theorem ScalesDown.of_lookup? (h : ScalesDown m node es m' v) (hl : m.lookup? node = some (id, u)) :
    m' = m.mark id u ∧ ∃ o, calls es = [.call () (.destroyUnits [id] false false) o] := by
  rw [← backing?_eq_lookup?] at hl
  cases h with
  | unknown hb => rw [hb] at hl; cases hl
  | @refused _ _ e hb =>
      obtain ⟨rfl, rfl⟩ := Prod.mk.inj (Option.some.inj (hb.symm.trans hl))
      exact ⟨rfl, _, rfl⟩
  | @accepted _ _ removals hb =>
      obtain ⟨rfl, rfl⟩ := Prod.mk.inj (Option.some.inj (hb.symm.trans hl))
      refine ⟨rfl, some (.ok removals), ?_⟩
      rw [calls, List.filter_cons_of_pos rfl, ← calls, calls_map_warn]

end Manager

namespace Group

variable {g : Group} {node : String} {i : Instance}

/-! ## The list of the nodes -/

/-- A unit as an autoscaler sees it. -/
def Instance.of (e : String × TrackedUnit) : Instance where
  unit := e.1
  node := if e.2.isResolved then some e.2.identity else none
  phase := e.2.phase

theorem Instance.node_of_eq_some_iff {e : String × TrackedUnit} :
    (Instance.of e).node = some node ↔ e.2.isResolved = true ∧ e.2.identity = node := by
  unfold Instance.of
  cases e.2.isResolved <;> simp

theorem mem_nodes_iff : i ∈ g.nodes ↔ ∃ u, g.manager.unit? i.unit = some u ∧ i = .of (i.unit, u) := by
  have hm : i ∈ g.nodes ↔ ∃ e ∈ g.manager.units.entries, Instance.of e = i := List.mem_map
  rw [hm]
  constructor
  · rintro ⟨⟨id, u⟩, he, rfl⟩
    exact ⟨u, Table.mem_entries_iff.mp he, rfl⟩
  · rintro ⟨u, hu, hi⟩
    exact ⟨_, Table.mem_entries_iff.mpr hu, hi.symm⟩

theorem exists_node_eq_some_iff : (∃ i ∈ g.nodes, i.node = some node) ↔ ∃ id, g.manager.Named id node := by
  constructor
  · rintro ⟨i, hi, hn⟩
    obtain ⟨u, hu, hi⟩ := mem_nodes_iff.mp hi
    rw [hi] at hn
    exact ⟨i.unit, u, hu, Instance.node_of_eq_some_iff.mp hn⟩
  · rintro ⟨id, u, hu, hn⟩
    exact ⟨.of (id, u), mem_nodes_iff.mpr ⟨u, hu, rfl⟩, Instance.node_of_eq_some_iff.mpr hn⟩

theorem contains_iff : g.contains node = true ↔ ∃ i ∈ g.nodes, i.node = some node :=
  Manager.isSome_lookup?_iff.trans exists_node_eq_some_iff.symm

theorem ascending_nodes (g : Group) : g.nodes.Pairwise (·.unit < ·.unit) :=
  g.manager.units.ascending.map _ fun _ _ h => h

theorem eq_of_mem_nodes {j : Instance} (hi : i ∈ g.nodes) (hj : j ∈ g.nodes) (h : i.unit = j.unit) : i = j := by
  obtain ⟨u, hu, hi⟩ := mem_nodes_iff.mp hi
  obtain ⟨w, hw, hj⟩ := mem_nodes_iff.mp hj
  rw [h] at hu hi
  obtain rfl := Option.some.inj (hu.symm.trans hw)
  exact hi.trans hj.symm

/-- The list comes out the same in whatever order the units have been gone over before it is sorted. -/
theorem mergeSort_eq_nodes {scan : List (String × TrackedUnit)} (hs : scan.Perm g.manager.units.entries) :
    (scan.map Instance.of).mergeSort (fun i j => i.unit ≤ j.unit) = g.nodes := by
  have hp : ((scan.map Instance.of).mergeSort fun i j => i.unit ≤ j.unit).Perm g.nodes :=
    (List.mergeSort_perm ..).trans (hs.map _)
  have hm : ((scan.map Instance.of).mergeSort fun i j => i.unit ≤ j.unit).Pairwise fun i j => decide (i.unit ≤ j.unit) :=
    List.pairwise_mergeSort (fun i j k hij hjk => by simpa using String.le_trans (by simpa using hij) (by simpa using hjk))
      (fun i j => by simpa using String.le_total i.unit j.unit) _
  refine hp.eq_of_pairwise (fun i j hi hj hij hji => ?_) (hm.imp of_decide_eq_true)
    (g.ascending_nodes.imp fun h => Std.le_of_lt h)
  exact eq_of_mem_nodes (hp.mem_iff.mp hi) hj (String.le_antisymm hij hji)

/-! ## Agreement -/

/-- The list of the nodes has one entry for each tracked unit, in ascending order, and shows no node just for a unit that is
not resolved. It does not depend on the order in which the units are gone over. -/
structure ListsNodes (g : Group) : Prop where
  ascending : g.nodes.Pairwise (·.unit < ·.unit)
  mem : ∀ i, i ∈ g.nodes ↔ ∃ u, g.manager.unit? i.unit = some u ∧ i = .of (i.unit, u)
  node : ∀ i ∈ g.nodes, ∀ u, g.manager.unit? i.unit = some u → (i.node = none ↔ u.isResolved = false)
  length : g.nodes.length = g.size
  sorted : ∀ scan : List (String × TrackedUnit), scan.Perm g.manager.units.entries →
    (scan.map Instance.of).mergeSort (fun i j => i.unit ≤ j.unit) = g.nodes

/-- Look-ups, removals and the list of the nodes are about the same unit for a node, or all know none, in whatever order they
go over the units. -/
structure AgreesOn (g : Group) (node : String) : Prop where
  listed : g.contains node = true ↔ ∃ i ∈ g.nodes, i.node = some node
  scanned : ∀ scan : List (String × TrackedUnit), scan.Perm g.manager.units.entries →
    Manager.lookupIn scan node = g.manager.lookup? node ∧ Manager.backingIn scan node = g.manager.lookup? node
  known : ∀ es m v, (g.manager.scaleDown node).Ends es m v →
    (v = some (.error (.unitNotFound node)) ↔ g.contains node = false)
  removed : ∀ id u, g.manager.lookup? node = some (id, u) →
    (∀ i ∈ g.nodes, i.node = some node ↔ i.unit = id) ∧
      ∀ es m v, (g.manager.scaleDown node).Ends es m v →
        m = g.manager.mark id u ∧ ∃ o, calls es = [.call () (.destroyUnits [id] false false) o]

theorem listsNodes (g : Group) : g.ListsNodes where
  ascending := g.ascending_nodes
  mem _ := mem_nodes_iff
  node i hi u hu := by
    obtain ⟨w, hw, hi⟩ := mem_nodes_iff.mp hi
    rw [hi, Option.some.inj (hu.symm.trans hw)]
    unfold Instance.of
    cases w.isResolved <;> simp
  length := List.length_map _
  sorted _ hs := mergeSort_eq_nodes hs

theorem agreesOn (hu : g.manager.Unambiguous) (node : String) : g.AgreesOn node where
  listed := contains_iff
  scanned scan hs := by
    have hb := (hu.backingIn_eq hs node).trans (Manager.backing?_eq_lookup? ..)
    exact ⟨(Manager.lookupIn_eq_backingIn ..).trans hb, hb⟩
  known es m v he := (Manager.ends_scaleDown.mp he).eq_unitNotFound_iff
  removed id u hl := by
    refine ⟨fun i hi => ?_, fun es m v he => (Manager.ends_scaleDown.mp he).of_lookup? hl⟩
    obtain ⟨hid, hn⟩ := Manager.named_of_lookup? hl
    obtain ⟨w, hw, hi⟩ := mem_nodes_iff.mp hi
    rw [hi, Instance.node_of_eq_some_iff]
    constructor
    · exact fun hwn => hu i.unit id node ⟨w, hw, hwn⟩ ⟨u, hid, hn⟩
    · rintro rfl
      rwa [Option.some.inj (hw.symm.trans hid)]

end Group

namespace Provider

variable {p : Provider} {g : Group} {node : String}

/-- The group of a node is the first that lists it. -/
theorem groupOf?_eq_some_iff : p.groupOf? node = some g ↔ ∃ before after, p.groups = before ++ g :: after ∧
    (∃ i ∈ g.nodes, i.node = some node) ∧ ∀ h ∈ before, ¬ ∃ i ∈ h.nodes, i.node = some node := by
  have hn (h : Group) : (!h.contains node) = true ↔ ¬ ∃ i ∈ h.nodes, i.node = some node := by
    rw [← Group.contains_iff, Bool.not_eq_true', Bool.not_eq_true]
  simp only [groupOf?, List.find?_eq_some_iff_append, Group.contains_iff, hn]
  constructor
  · rintro ⟨hg, before, after, hp, hb⟩
    exact ⟨before, after, hp, hg, hb⟩
  · rintro ⟨before, after, hp, hg, hb⟩
    exact ⟨hg, before, after, hp, hb⟩

theorem groupOf?_eq_none_iff : p.groupOf? node = none ↔ ∀ g ∈ p.groups, ¬ ∃ i ∈ g.nodes, i.node = some node := by
  simp only [groupOf?, List.find?_eq_none, Group.contains_iff]

/-- No group tracks two units of one name. Then each group has one and the same unit for a node, whether it is looked up,
removed or listed, or has none for all of these, and the group of the node is the first that has one. Each group lists its
units in order, every one of them once. -/
theorem views_agree (p : Provider) (hu : ∀ g ∈ p.groups, g.manager.Unambiguous) (node : String) :
    (∀ g ∈ p.groups, g.AgreesOn node ∧ g.ListsNodes) ∧
    (∀ g, p.groupOf? node = some g ↔ ∃ before after, p.groups = before ++ g :: after ∧
      (∃ i ∈ g.nodes, i.node = some node) ∧ ∀ h ∈ before, ¬ ∃ i ∈ h.nodes, i.node = some node) ∧
    (p.groupOf? node = none ↔ ∀ g ∈ p.groups, ¬ ∃ i ∈ g.nodes, i.node = some node) :=
  ⟨fun g hg => ⟨Group.agreesOn (hu g hg) node, g.listsNodes⟩, fun _ => groupOf?_eq_some_iff, groupOf?_eq_none_iff⟩

/-- Two groups, each with a unit on a node of the same name. In the first the unit is to go away, and another has no node
yet. -/
def sharing : Provider where
  groups :=
    let first := Manager.ofSnapshot .hostname "m" "app" (Manager.listing [("app/0", "n0"), ("app/1", "")])
    let second := Manager.ofSnapshot .hostname "m" "app" (Manager.listing [("app/0", "n0")])
    [.ofManager ⟨0, 5, "m", "app"⟩ ((first.lookup? "n0").elim first fun e => first.mark e.1 e.2),
      .ofManager ⟨0, 5, "m", "app"⟩ second]

theorem views_agree_sharing :
    sharing.groupOf? "n0" = sharing.groups[0]? ∧ sharing.groupOf? "" = none ∧
      ∀ g ∈ sharing.groups, g.AgreesOn "n0" ∧ g.AgreesOn "" := by
  have hu : ∀ g ∈ sharing.groups, g.manager.Unambiguous := by decide
  obtain ⟨ha, hg, -⟩ := views_agree sharing hu "n0"
  obtain ⟨ha', -, hn⟩ := views_agree sharing hu ""
  refine ⟨(hg _).mpr ⟨[], _, rfl, by decide, nofun⟩, hn.mpr (by decide), fun g h => ⟨(ha g h).1, (ha' g h).1⟩⟩

end Provider
end NodeGroups
