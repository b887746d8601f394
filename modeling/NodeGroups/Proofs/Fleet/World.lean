import Mathlib.Data.Finset.Card
import NodeGroups.Proofs.Ending
import NodeGroups.Proofs.Table

/-!
# Fleets that do what they are asked

A world is what a fleet holds of one application. `Serves` holds of the events in which the fleet answers every call and
does just what it is asked. Units that are removed stay listed until they go, which they may do after any event.
-/

namespace NodeGroups.Fleet
open Operation

/-- The units that are in use, those that are on their way out, and those that have gone. -/
structure World where
  live : Finset String
  dying : Finset String
  gone : Finset String
  live_dying : Disjoint live dying
  live_gone : Disjoint live gone
  dying_gone : Disjoint dying gone

namespace World
variable {w w' : World} {app id : String} {s : Snapshot}

/-- All units that there have ever been. -/
def known (w : World) : Finset String := w.live ∪ w.dying ∪ w.gone

/-- Units on their way out go for good. -/
def vanish (w : World) (ids : Finset String) : World where
  live := w.live
  dying := w.dying \ ids
  gone := w.gone ∪ w.dying ∩ ids
  live_dying := w.live_dying.mono_right Finset.sdiff_subset
  live_gone := Finset.disjoint_union_right.mpr ⟨w.live_gone, w.live_dying.mono_right Finset.inter_subset_left⟩
  dying_gone := Finset.disjoint_union_right.mpr
    ⟨w.dying_gone.mono_left Finset.sdiff_subset, Finset.sdiff_disjoint.mono_right Finset.inter_subset_right⟩

def grow (w : World) (new : Finset String) (h : Disjoint new w.known) : World where
  live := w.live ∪ new
  dying := w.dying
  gone := w.gone
  live_dying := Finset.disjoint_union_left.mpr
    ⟨w.live_dying, h.mono_right (Finset.subset_union_right.trans Finset.subset_union_left)⟩
  live_gone := Finset.disjoint_union_left.mpr ⟨w.live_gone, h.mono_right Finset.subset_union_right⟩
  dying_gone := w.dying_gone

/-- Units are removed. It makes no difference to those that are not in use. -/
def remove (w : World) (ids : List String) : World where
  live := w.live \ ids.toFinset
  dying := w.dying ∪ w.live ∩ ids.toFinset
  gone := w.gone
  live_dying := Finset.disjoint_union_right.mpr
    ⟨w.live_dying.mono_left Finset.sdiff_subset, Finset.sdiff_disjoint.mono_right Finset.inter_subset_right⟩
  live_gone := w.live_gone.mono_left Finset.sdiff_subset
  dying_gone := Finset.disjoint_union_left.mpr ⟨w.dying_gone, w.live_gone.mono_left Finset.inter_subset_left⟩

theorem mem_known : id ∈ w.known ↔ id ∈ w.live ∨ id ∈ w.dying ∨ id ∈ w.gone := by
  simp [known]

@[simp] theorem known_vanish (w : World) (ids : Finset String) : (w.vanish ids).known = w.known := by
  ext j
  simp only [mem_known, vanish, Finset.mem_sdiff, Finset.mem_union, Finset.mem_inter]
  tauto

@[simp] theorem known_remove (w : World) (ids : List String) : (w.remove ids).known = w.known := by
  ext j
  simp only [mem_known, remove, Finset.mem_sdiff, Finset.mem_union, Finset.mem_inter, List.mem_toFinset]
  tauto

theorem mem_known_grow {new : Finset String} {h : Disjoint new w.known} (hid : id ∈ w.known) :
    id ∈ (w.grow new h).known :=
  mem_known.mpr ((mem_known.mp hid).imp_left (Finset.mem_union_left new))

theorem card_live_grow {new : Finset String} {h : Disjoint new w.known} :
    (w.grow new h).live.card = w.live.card + new.card := by
  refine Finset.card_union_of_disjoint (Finset.disjoint_left.mpr fun id hl hid => ?_)
  exact Finset.disjoint_left.mp h hid (mem_known.mpr (.inl hl))

theorem card_live_remove (hid : id ∈ w.live) : (w.remove [id]).live.card + 1 = w.live.card := by
  simp only [remove, List.toFinset_cons, List.toFinset_nil, insert_empty_eq, Finset.sdiff_singleton_eq_erase]
  exact Finset.card_erase_add_one hid

theorem live_remove_of_notMem (hid : id ∉ w.live) : (w.remove [id]).live = w.live := by
  simp [remove, hid]

/-- The snapshot lists the units that are in use or on their way out. Nothing is said of how they are. -/
def Shows (w : World) (app : String) (s : Snapshot) : Prop := (s.unitsOf app).keys.toFinset = w.live ∪ w.dying

instance : Decidable (w.Shows app s) := inferInstanceAs (Decidable (_ = _))

theorem Shows.lists_iff (h : w.Shows app s) : s.lists app id = true ↔ id ∈ w.live ∨ id ∈ w.dying := by
  rw [Snapshot.lists, ← Table.mem_keys_iff, ← List.mem_toFinset, h, Finset.mem_union]

/-- What an event makes of the world, if the fleet does just what it is asked. -/
inductive Answers (app : String) (w : World) : Event Unit → World → Prop
  | warn {n} : Answers app w (.warn n) w
  | status {s : Snapshot} : w.Shows app s → Answers app w (.answered () (.status [app]) s) w
  | addUnits {count names new} (h : Disjoint new w.known) : new.card = count →
      Answers app w (.answered () (.addUnits app count) names) (w.grow new h)
  | destroyUnits {ids storage force} {removals : List Removal} : (∀ r ∈ removals, r.error = none) →
      Answers app w (.answered () (.destroyUnits ids storage force) removals) (w.remove ids)

/-- What events make of the world. After each of them some of the units on their way out may go. -/
inductive Serves (app : String) : World → List (Event Unit) → World → Prop
  | nil {w : World} : Serves app w [] w
  | cons {w w₁ w₂ : World} {e es} (ids : Finset String) :
      Answers app w e w₁ → Serves app (w₁.vanish ids) es w₂ → Serves app w (e :: es) w₂

theorem Serves.split {es es' : List (Event Unit)} (h : Serves app w (es ++ es') w') :
    ∃ w₁, Serves app w es w₁ ∧ Serves app w₁ es' w' := by
  induction es generalizing w with
  | nil => exact ⟨w, .nil, h⟩
  | cons e es ih =>
      cases h with
      | cons ids ha hs =>
          obtain ⟨w₁, h₁, h₂⟩ := ih hs
          exact ⟨w₁, .cons ids ha h₁, h₂⟩

theorem Serves.live_of_status {s : Snapshot} (h : Serves app w [.answered () (.status [app]) s] w') :
    w'.live = w.live := by
  cases h with
  | cons ids ha hs =>
      cases hs
      cases ha
      rfl

/-- No call fails. -/
theorem Serves.not_failed {es : List (Event Unit)} {r : Request} {e : Option Error} (h : Serves app w es w') :
    .failed () r e ∉ es := by
  induction h with
  | nil => exact List.not_mem_nil
  | cons ids ha _ ih =>
      rw [List.mem_cons, not_or]
      refine ⟨?_, ih⟩
      rintro rfl
      cases e <;> cases ha

theorem Serves.of_warns {p : World → Prop} (hp : ∀ w ids, p w → p (vanish w ids)) :
    {ns : List Notice} → {w : World} → Serves app w (ns.map .warn) w' → p w → p w'
  | [], _, .nil, hw => hw
  | _ :: _, _, .cons ids .warn hs, hw => Serves.of_warns hp hs (hp _ ids hw)

end World
end NodeGroups.Fleet
