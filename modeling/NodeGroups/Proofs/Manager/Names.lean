import Mathlib.Data.List.Find
import Mathlib.Data.List.Forall2
import NodeGroups.Proofs.Manager.Comeback

/-!
# Names of nodes

A unit takes the name of its node from the first snapshot that has one for it, and keeps it, whatever later snapshots say.
So that each snapshot has different names for different units is not enough to tell the tracked units apart: a name must not
go to another unit while the one that had it is still listed. Main statement: `unambiguous_of_keepsNames`.
-/

namespace NodeGroups
open Fleet (IdentitySource Snapshot)
open Operation

namespace Fleet.IdentitySource

variable {source : IdentitySource} {app id name : String} {s t : Snapshot}

/-- The name that a snapshot has for the node of a unit. -/
def nameOf? (source : IdentitySource) (app : String) (s : Snapshot) (id : String) : Option String :=
  (s.unit? app id).bind (source.resolve s)

/-- Different units have different names. -/
def Separates (source : IdentitySource) (app : String) (s : Snapshot) : Prop :=
  ∀ i j name, source.nameOf? app s i = some name → source.nameOf? app s j = some name → i = j

/-- A name of the first snapshot is that of another unit in the second only if the second no longer lists the unit that had
it. -/
def KeepsNames (source : IdentitySource) (app : String) (s t : Snapshot) : Prop :=
  ∀ i j name, source.nameOf? app s i = some name → source.nameOf? app t j = some name →
    i = j ∨ t.lists app i = false

theorem lists_of_nameOf? (h : source.nameOf? app s id = some name) : s.lists app id = true := by
  obtain ⟨st, hst, -⟩ := Option.bind_eq_some_iff.mp h
  exact Table.contains_iff.mpr ⟨st, hst⟩

theorem separates_iff : source.Separates app s ↔ source.KeepsNames app s s := by
  constructor
  · exact fun h i j name hi hj => .inl (h i j name hi hj)
  · intro h i j name hi hj
    refine (h i j name hi hj).resolve_right ?_
    rw [lists_of_nameOf? hi]
    nofun

-- only listed units have names
instance : Decidable (source.KeepsNames app s t) :=
  decidable_of_iff
    (∀ i ∈ (s.unitsOf app).keys, ∀ j ∈ (t.unitsOf app).keys, ∀ name ∈ source.nameOf? app s i,
      name ∈ source.nameOf? app t j → i = j ∨ t.lists app i = false) <| by
    constructor
    · intro h i j name hi hj
      have hki := Table.mem_keys_iff.mpr (lists_of_nameOf? hi)
      have hkj := Table.mem_keys_iff.mpr (lists_of_nameOf? hj)
      exact h i hki j hkj name hi hj
    · exact fun h i _ j _ name hi hj => h i j name hi hj

instance : Decidable (source.Separates app s) := decidable_of_iff _ separates_iff.symm

end Fleet.IdentitySource

namespace Manager

variable {m m' : Manager} {id name : String} {s : Snapshot} {ss : List Snapshot}

/-- The unit is tracked, and its node has that name. -/
def Named (m : Manager) (id name : String) : Prop :=
  ∃ u, m.units.get? id = some u ∧ u.isResolved = true ∧ u.identity = name

/-- Different tracked units have different names. -/
def Unambiguous (m : Manager) : Prop := ∀ i j name, m.Named i name → m.Named j name → i = j

/-- Each name of a tracked unit has come from one of the snapshots. -/
def NamedBy (m : Manager) (ss : List Snapshot) : Prop :=
  ∀ id name, m.Named id name → ∃ s ∈ ss, m.source.nameOf? m.application s id = some name

/-! ## Changes of a manager -/

theorem named_mark {j : String} {u : TrackedUnit} (hu : m.units.get? j = some u) :
    (m.mark j u).Named id name ↔ m.Named id name := by
  rw [Named, get?_units_mark]
  by_cases hj : id = j
  · subst hj
    simp [Named, hu, TrackedUnit.isResolved]
  · simp [hj, Named]

theorem named_track {before after : Snapshot} :
    (m.track (m.fresh before after).entries).Named id name ↔ m.Named id name := by
  rw [Named, get?_units_track]
  cases hf : (m.fresh before after).get? id with
  | none => simp [Named]
  | some st =>
      obtain ⟨-, -, hu⟩ := contains_fresh_iff.mp (Table.contains_iff.mpr ⟨st, hf⟩)
      simp [Named, hu, TrackedUnit.isResolved]

theorem Named.of_ofSnapshot {source : IdentitySource} {model app : String}
    (h : (ofSnapshot source model app s).Named id name) : source.nameOf? app s id = some name := by
  obtain ⟨u, hu, hr, rfl⟩ := h
  simp only [ofSnapshot, Table.get?_map, Option.map_eq_some_iff] at hu
  obtain ⟨st, hst, rfl⟩ := hu
  refine Option.bind_eq_some_iff.mpr ⟨st, hst, ?_⟩
  cases hn : source.resolve s st with
  | none => simp [TrackedUnit.isResolved, hn] at hr
  | some n => rfl

/-- A unit that has a name after a reconciliation is listed, and had the name before or has got it from the snapshot. -/
theorem Named.of_reconciled (h : (m.reconciled s).Named id name) :
    s.lists m.application id = true ∧ (m.Named id name ∨ m.source.nameOf? m.application s id = some name) := by
  obtain ⟨u, hu, hr, rfl⟩ := h
  obtain ⟨st, hst, -, hw⟩ := reconciled_eq_some hu
  refine ⟨Table.contains_iff.mpr ⟨st, hst⟩, ?_⟩
  have hn (he : u.identity = (m.source.resolve s st).getD "") :
      m.source.nameOf? m.application s id = some u.identity := by
    refine Option.bind_eq_some_iff.mpr ⟨st, hst, ?_⟩
    cases hn : m.source.resolve s st with
    | none => simp [TrackedUnit.isResolved, he, hn] at hr
    | some n => rw [he, hn, Option.getD_some]
  rcases hw with ⟨w, hw, rfl⟩ | ⟨-, rfl⟩
  · have hi : ((w.resolve (m.source.resolve s st)).observe st).identity =
        if w.isResolved then w.identity else (m.source.resolve s st).getD "" := w.identity_resolve _
    by_cases hwr : w.isResolved = true
    · rw [if_pos hwr] at hi
      exact .inl ⟨w, hw, hwr, hi.symm⟩
    · rw [if_neg hwr] at hi
      exact .inr (hn hi)
  · exact .inr (hn rfl)

/-! ## Operations -/

theorem source_of_ends {c : Command} {es : List (Event Unit)} {v : Option (Except Error Unit)}
    (h : (act c m).Ends es m' v) : m'.source = m.source := by
  cases c with
  | scaleUp count => cases ends_scaleUp.mp h <;> rfl
  | scaleDown node => cases ends_scaleDown.mp h <;> rfl
  | reconcile =>
      cases ends_reconcile.mp h with
      | unseen => rfl
      | seen => exact source_reconciled

theorem source_of_session {steps : List Turn} (h : Session act m steps m') : m'.source = m.source :=
  h.preserves (p := fun m' => m'.source = m.source) rfl fun _ _ _ _ _ he hs => (source_of_ends he).trans hs

/-- Only a reconciliation gives names, and it takes them all from one snapshot. -/
theorem Named.of_ends {c : Command} {es : List (Event Unit)} {v : Option (Except Error Unit)}
    (he : (act c m).Ends es m' v) :
    (∀ id name, m'.Named id name → m.Named id name) ∨
      ∃ s, fetched es = [s] ∧ ∀ id name, m'.Named id name →
        s.lists m.application id = true ∧ (m.Named id name ∨ m.source.nameOf? m.application s id = some name) := by
  cases c with
  | scaleUp count =>
      left
      cases ends_scaleUp.mp he with
      | zero | unseen | refused | lost => exact fun _ _ h => h
      | grown => exact fun _ _ h => named_track.mp h
  | scaleDown node =>
      left
      cases ends_scaleDown.mp he with
      | unknown => exact fun _ _ h => h
      | refused hb | accepted hb => exact fun _ _ h => (named_mark (backing?_eq_some hb).1).mp h
  | reconcile =>
      cases ends_reconcile.mp he with
      | unseen => exact .inl fun _ _ h => h
      | @seen s => exact .inr ⟨s, rfl, fun _ _ h => h.of_reconciled⟩

theorem NamedBy.of_ends {c : Command} {es : List (Event Unit)} {v : Option (Except Error Unit)} (h : m.NamedBy ss)
    (he : (act c m).Ends es m' v) : m'.NamedBy (ss ++ fetched es) := by
  intro id name hn
  rw [source_of_ends he, application_of_ends he]
  have hold (hm : m.Named id name) : ∃ s ∈ ss ++ fetched es, m.source.nameOf? m.application s id = some name := by
    obtain ⟨s, hs, hsn⟩ := h id name hm
    exact ⟨s, List.mem_append_left _ hs, hsn⟩
  rcases Named.of_ends he with hm | ⟨s, hs, hm⟩
  · exact hold (hm id name hn)
  · rcases (hm id name hn).2 with hm | hsn
    · exact hold hm
    · exact ⟨s, by simp [hs], hsn⟩

theorem Unambiguous.of_ends {c : Command} {es : List (Event Unit)} {v : Option (Except Error Unit)}
    (h : m.Unambiguous) (hb : m.NamedBy ss) (he : (act c m).Ends es m' v)
    (hs : ∀ s ∈ fetched es, m.source.Separates m.application s)
    (hk : ∀ t ∈ ss, ∀ s ∈ fetched es, m.source.KeepsNames m.application t s) : m'.Unambiguous := by
  rcases Named.of_ends he with hm | ⟨s, hes, hm⟩
  · exact fun i j name hi hj => h i j name (hm i name hi) (hm j name hj)
  · rw [hes] at hs hk
    have heq {i j name : String} (hi : m.Named i name) (hl : s.lists m.application i = true)
        (hj : m.source.nameOf? m.application s j = some name) : i = j := by
      obtain ⟨t, ht, hti⟩ := hb i name hi
      refine (hk t ht s List.mem_cons_self i j name hti hj).resolve_right ?_
      rw [hl]
      nofun
    intro i j name hi hj
    obtain ⟨hli, hi⟩ := hm i name hi
    obtain ⟨hlj, hj⟩ := hm j name hj
    rcases hi with hi | hi <;> rcases hj with hj | hj
    · exact h i j name hi hj
    · exact heq hi hli hj
    · exact (heq hj hlj hi).symm
    · exact hs s List.mem_cons_self i j name hi hj

/-! ## Sessions -/

theorem names_of_session {source : IdentitySource} {model app : String} {s₀ : Snapshot} {steps : List Turn}
    (h : Session act (ofSnapshot source model app s₀) steps m)
    (hs : ∀ s ∈ s₀ :: fetched (eventsOf steps), source.Separates app s)
    (hk : (s₀ :: fetched (eventsOf steps)).Pairwise (source.KeepsNames app)) :
    m.Unambiguous ∧ m.NamedBy (s₀ :: fetched (eventsOf steps)) := by
  induction h with
  | idle =>
      refine ⟨fun i j name hi hj => ?_, fun id name hn => ⟨s₀, List.mem_cons_self, hn.of_ofSnapshot⟩⟩
      exact hs s₀ List.mem_cons_self i j name hi.of_ofSnapshot hj.of_ofSnapshot
  | @step steps m m' c es v h he ih =>
      simp only [eventsOf, List.flatMap_append, List.flatMap_singleton, fetched_append, ← List.cons_append] at hs hk ⊢
      obtain ⟨hks, -, hkes⟩ := List.pairwise_append.mp hk
      obtain ⟨hu, hb⟩ := ih (fun s hs' => hs s (List.mem_append_left _ hs')) hks
      refine ⟨hu.of_ends hb he ?_ ?_, hb.of_ends he⟩ <;> rw [source_of_session h, application_of_session h]
      · exact fun s hs' => hs s (List.mem_append_right _ hs')
      · exact hkes

/-! ## Look-ups -/

-- only tracked units have names
instance : Decidable m.Unambiguous :=
  decidable_of_iff
    (∀ e ∈ m.units.entries, ∀ f ∈ m.units.entries, e.2.isResolved = true → f.2.isResolved = true →
      e.2.identity = f.2.identity → e.1 = f.1) <| by
    constructor
    · rintro h i j name ⟨u, hu, hur, rfl⟩ ⟨w, hw, hwr, hn⟩
      exact h (i, u) (Table.mem_entries_iff.mpr hu) (j, w) (Table.mem_entries_iff.mpr hw) hur hwr hn.symm
    · rintro h ⟨i, u⟩ hu ⟨j, w⟩ hw hur hwr hn
      exact h i j _ ⟨u, Table.mem_entries_iff.mp hu, hur, rfl⟩ ⟨w, Table.mem_entries_iff.mp hw, hwr, hn.symm⟩

theorem lookupIn_eq_backingIn (scan : List (String × TrackedUnit)) (node : String) :
    lookupIn scan node = backingIn scan node := by
  unfold lookupIn backingIn
  split
  · next hn =>
    obtain rfl : node = "" := String.isEmpty_iff.mp hn
    refine (List.find?_eq_none.mpr fun e _ he => ?_).symm
    simp [TrackedUnit.isResolved] at he
  · next hn =>
    refine List.find?_congr fun e _ => ?_
    by_cases he : e.2.identity = node
    · simp [he, TrackedUnit.isResolved, hn]
    · simp [he]

/-- An empty name is nobody's, so a removal finds what a look-up finds. -/
theorem backing?_eq_lookup? (m : Manager) (node : String) : m.backing? node = m.lookup? node :=
  (lookupIn_eq_backingIn m.units.entries node).symm

/-- If no two units have one name, a removal finds the same unit in whatever order it goes over them. -/
theorem Unambiguous.backingIn_eq {scan : List (String × TrackedUnit)} (h : m.Unambiguous)
    (hs : scan.Perm m.units.entries) (node : String) : backingIn scan node = m.backing? node := by
  refine List.find?_eq_find?_of_perm hs fun e he f hf => ?_
  obtain ⟨i, u⟩ := e
  obtain ⟨j, w⟩ := f
  obtain ⟨hu, hun⟩ := he
  obtain ⟨hw, hwn⟩ := hf
  simp only [Bool.and_eq_true, beq_iff_eq] at hun hwn
  replace hu := Table.mem_entries_iff.mp (hs.mem_iff.mp hu)
  replace hw := Table.mem_entries_iff.mp (hs.mem_iff.mp hw)
  obtain rfl := h i j node ⟨u, hu, hun⟩ ⟨w, hw, hwn⟩
  rw [Option.some.inj (hu.symm.trans hw)]

/-- An instruction in place of another: it has the same command, and goes over the units in the same order unless no two
of them have one name. -/
structure Instruction.Matches (m : Manager) (i j : Instruction) : Prop where
  command : j.command = i.command
  scan : j.scan = i.scan ∨ m.Unambiguous

theorem Instruction.Matches.refl (m : Manager) (i : Instruction) : i.Matches m i := ⟨rfl, .inl rfl⟩

theorem Instruction.Matches.follow_eq {i j : Instruction} (h : i.Matches m j) : follow j m = follow i m := by
  obtain ⟨c, scan⟩ := i
  obtain ⟨c', scan'⟩ := j
  obtain ⟨rfl, rfl | hu⟩ := h
  · rfl
  · cases c' with
    | scaleUp | reconcile => rfl
    | scaleDown node =>
        have hb : backingIn (scan'.entries m.units) node = backingIn (scan.entries m.units) node :=
          (hu.backingIn_eq (scan'.perm _) node).trans (hu.backingIn_eq (scan.perm _) node).symm
        simp only [follow, scaleDownIn, hb]

/-- If no two units have one name at any time, any orders will do. -/
theorem matches_of_unambiguous {turns : List ScanTurn} {js : List Instruction}
    (hc : js.map (·.command) = turns.map (·.command.command)) (hu : ∀ d ∈ turns, d.before.Unambiguous) :
    List.Forall₂ (fun d j => d.command.Matches d.before j) turns js := by
  rw [← List.forall₂_eq_eq_eq, List.forall₂_map_left_iff, List.forall₂_map_right_iff] at hc
  exact ((List.forall₂_and_left _ _).mpr ⟨hu, hc.flip⟩).imp fun d j h => ⟨h.2, .inr h.1⟩

theorem Unambiguous.backing?_eq {u : TrackedUnit} (h : m.Unambiguous) (hu : m.units.get? id = some u)
    (hr : u.isResolved = true) : m.backing? u.identity = some (id, u) := by
  have hm : (id, u) ∈ m.units.entries := Table.mem_entries_iff.mpr hu
  cases hb : m.backing? u.identity with
  | none =>
      have hn := List.find?_eq_none.mp hb (id, u) hm
      simp [hr] at hn
  | some e =>
      obtain ⟨j, w⟩ := e
      obtain ⟨hw, hwr, hwn⟩ := backing?_eq_some hb
      obtain rfl := h id j u.identity ⟨u, hu, hr, rfl⟩ ⟨w, hw, hwr, hwn⟩
      rw [Option.some.inj (hu.symm.trans hw)]

/-- A manager has been set up from a snapshot, and has got others since. Each of them has different names for different
units, and none has for one unit a name that an earlier one has for another unit, which it still lists. Then at any time
the tracked units have different names, and a look-up or a removal by the name of a unit finds that unit. -/
theorem unambiguous_of_keepsNames {source : IdentitySource} {model app : String} {s₀ : Snapshot} {steps : List Turn}
    (h : Session act (ofSnapshot source model app s₀) steps m)
    (hs : ∀ s ∈ s₀ :: fetched (eventsOf steps), source.Separates app s)
    (hk : (s₀ :: fetched (eventsOf steps)).Pairwise (source.KeepsNames app)) :
    m.Unambiguous ∧ ∀ id u, m.unit? id = some u → u.isResolved = true →
      m.lookup? u.identity = some (id, u) ∧ m.backing? u.identity = some (id, u) := by
  have hu := (names_of_session h hs hk).1
  refine ⟨hu, fun id u hid hr => ?_⟩
  rw [← backing?_eq_lookup?]
  exact ⟨hu.backing?_eq hid hr, hu.backing?_eq hid hr⟩

/-- A snapshot of ready units, each on a node of its own. -/
def listing (nodes : List (String × String)) : Snapshot where
  applications := .ofList [("app", .ofList (nodes.map fun (unit, node) =>
    (unit, { agent := { current := "idle" }, workload := { current := "active" }, machine := node })))]
  machines := nodes.map fun (_, node) => (node, { hostname := node })

/-- A manager of one unit is reconciled with each of the snapshots. -/
def following (snapshots : List Snapshot) : List Turn × Manager :=
  play act Fleet.Script.one { status := snapshots.map fun s => { outcome := some (.ok s) } }
    (.ofSnapshot .hostname "m" "app" (listing [("app/0", "n0")])) (snapshots.map fun _ => .reconcile)

/-- The node of the unit gets another name. Then the unit is gone, and another has the first name. -/
theorem unambiguous_of_keepsNames_following :
    let r := following [listing [("app/0", "n9")], listing [("app/1", "n0")]]
    (r.2.lookup? "n0").map (·.1) = some "app/1" ∧ r.2.Unambiguous := by
  intro r
  have h : Session act _ r.1 r.2 := session_play ..
  obtain ⟨hu, hl⟩ := unambiguous_of_keepsNames h (by decide) (by decide)
  exact ⟨congrArg _ (hl "app/1" _ rfl rfl).1, hu⟩

/-- The node of the unit gets another name while a new unit has the first name. Each snapshot has different names, but the
manager has the same name for both units. -/
theorem ambiguous_following : ¬ ∀ (source : IdentitySource) (model app : String) (s₀ : Snapshot) (steps : List Turn)
    (d : Turn) (m : Manager), Session act (ofSnapshot source model app s₀) (steps ++ [d]) m →
      (∀ s ∈ s₀ :: fetched (eventsOf (steps ++ [d])), source.Separates app s) →
        d.command = .reconcile → d.value = some (.ok ()) → m.Unambiguous := by
  intro h
  let r := following [listing [("app/0", "n9"), ("app/1", "n0")]]
  have hr : Session act _ r.1 r.2 := session_play ..
  have hs : Session act _ ([] ++ [r.1[0]]) r.2 := hr
  have hu : r.2.Unambiguous := h _ _ _ _ _ _ _ hs (by decide) rfl rfl
  exact absurd (hu "app/0" "app/1" "n0" ⟨_, rfl, rfl, rfl⟩ ⟨_, rfl, rfl, rfl⟩) (by decide)

end Manager
end NodeGroups
