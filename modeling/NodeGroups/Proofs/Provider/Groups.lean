import Mathlib.Data.List.Forall2
import Mathlib.Data.List.Nodup
import NodeGroups.Proofs.Provider.Ending

/-!
# The groups of a provider

A provider that has been set up has a group for each spec, in order, and finds each by its id. Main statement:
`group_of_start`.
-/

namespace NodeGroups

/-- The group of a spec, whatever has become of its units. -/
structure Group.IsOf (g : Group) (s : Spec) : Prop where
  id_eq : g.id = s.id
  minSize_eq : g.minSize = s.minSize
  maxSize_eq : g.maxSize = s.maxSize
  model_eq : g.manager.model = s.model
  application_eq : g.manager.application = s.application

namespace Provider
open Fleet (IdentitySource)
open Operation

variable {p : Provider} {source : IdentitySource} {specs : List Spec} {es : List (Event Nat)} {s : Spec}

theorem Starts.exists_isOf {groups : List Group} (h : Starts source groups specs es (some (.ok p))) :
    ∃ added, p.groups = groups ++ added ∧ List.Forall₂ Group.IsOf added specs := by
  generalize hw : some (Except.ok p) = w at h
  induction h with
  | done =>
      cases hw
      exact ⟨[], (List.append_nil _).symm, .nil⟩
  | @failed _ _ _ e => cases e <;> cases hw
  | added _ ih =>
      obtain ⟨added, hp, hf⟩ := ih hw
      exact ⟨_ :: added, hp.trans (List.append_assoc ..), .cons ⟨rfl, rfl, rfl, rfl, rfl⟩ hf⟩

theorem exists_find?_of_forall₂ {groups : List Group} (hf : List.Forall₂ Group.IsOf groups specs)
    (hn : (specs.map (·.id)).Nodup) (hs : s ∈ specs) : ∃ g, groups.find? (·.id == s.id) = some g ∧ g.IsOf s := by
  induction hf with
  | nil => cases hs
  | @cons g x _ _ hg _ ih =>
      rw [List.map_cons, List.nodup_cons] at hn
      rcases List.mem_cons.mp hs with rfl | hs
      · exact ⟨g, List.find?_cons_of_pos (beq_iff_eq.mpr hg.id_eq), hg⟩
      · have hne : g.id ≠ s.id := fun he => hn.1 (List.mem_map.mpr ⟨s, hs, he.symm.trans hg.id_eq⟩)
        rw [List.find?_cons_of_neg (by simpa using hne)]
        exact ih hn.2 hs

/-- A provider set up from specs with different ids finds the group of each spec by its id. -/
theorem group_of_start (h : (start source specs).Ends es () (some (.ok p))) (hn : (specs.map (·.id)).Nodup) (hs : s ∈ specs) :
    ∃ g, p.group s.id = .ok g ∧ g.IsOf s := by
  obtain ⟨_, hp, hf⟩ := (ends_startFrom.mp h).exists_isOf
  rw [List.nil_append] at hp
  obtain ⟨g, hg, hi⟩ := exists_find?_of_forall₂ (hp ▸ hf) hn hs
  exact ⟨g, by rw [group, group?, hg]; rfl, hi⟩

end Provider
end NodeGroups
