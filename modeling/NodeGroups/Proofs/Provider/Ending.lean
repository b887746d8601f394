import NodeGroups.Proofs.Group.Ending
import NodeGroups.Provider

/-!
# How the operations of a provider end

An operation of a provider is one of the addressed group, or one of each group in turn. So each group goes through a
session of its own, and its fleet gets the calls of that session only.
-/

namespace NodeGroups.Provider
open Fleet (IdentitySource)
open Operation

variable {p p' : Provider} {es : List (Event Nat)} {v : Option (Except Error Unit)}

/-! ## Start -/

/-- The endings of a start behind the groups that have been set up. -/
inductive Starts (source : IdentitySource) :
    List Group → List Spec → List (Event Nat) → Option (Except Error Provider) → Prop
  | done {groups} : Starts source groups [] [] (some (.ok ⟨groups⟩))
  | failed {groups : List Group} {spec : Spec} {rest e} :
      Starts source groups (spec :: rest) [.failed groups.length (.status [spec.application]) e]
        (e.map fun e => .error (.start spec.id (.fleet e)))
  | added {groups : List Group} {spec : Spec} {rest s es w} :
      Starts source (groups ++ [.ofManager spec (.ofSnapshot source spec.model spec.application s)]) rest es w →
      Starts source groups (spec :: rest) (.answered groups.length (.status [spec.application]) s :: es) w

theorem ends_startFrom {source : IdentitySource} {groups : List Group} {specs : List Spec}
    {w : Option (Except Error Provider)} :
    (startFrom source groups specs).Ends es () w ↔ Starts source groups specs es w := by
  induction specs generalizing groups es with
  | nil =>
      rw [startFrom, ends_done]
      constructor
      · rintro ⟨rfl, -, rfl⟩
        exact .done
      · intro h
        cases h
        exact ⟨rfl, rfl, rfl⟩
  | cons spec rest ih =>
      rw [startFrom, Manager.init, bindIn, ends_call]
      constructor
      · rintro (⟨rfl, -, rfl⟩ | ⟨o, es, rfl, h⟩)
        · exact .failed (e := none)
        · cases o with
          | error e =>
              obtain ⟨rfl, -, rfl⟩ := ends_done.mp h
              exact .failed (e := some e)
          | ok s => exact .added (ih.mp h)
      · intro h
        cases h with
        | @failed _ _ _ e =>
            cases e with
            | none => exact .inl ⟨rfl, rfl, rfl⟩
            | some e => exact .inr ⟨.error e, [], rfl, ends_done.mpr ⟨rfl, rfl, rfl⟩⟩
        | added h => exact .inr ⟨.ok _, _, rfl, ih.mpr h⟩

/-! ## Refreshes -/

/-- The endings of a refresh of the groups behind others. -/
inductive RefreshesFrom : List Group → Option Error → List Group →
    List (Event Nat) → Provider → Option (Except Error Unit) → Prop
  | done {before failure} : RefreshesFrom before failure [] [] ⟨before⟩ (some (failure.elim (.ok ()) .error))
  | brokenOff {before failure} {g : Group} {rest} :
      RefreshesFrom before failure (g :: rest) [.call before.length (.status [g.manager.application]) none]
        ⟨before ++ g :: rest⟩ none
  | failed {before failure} {g : Group} {rest e es p' v} :
      RefreshesFrom (before ++ [g]) (failure.or (some (.manager (.fleet e)))) rest es p' v →
      RefreshesFrom before failure (g :: rest)
        (.failed before.length (.status [g.manager.application]) (some e) ::
          .warn (.groupRefreshFailed g.id e.message) :: es) p' v
  | renewed {before failure} {g : Group} {rest s es p' v} :
      RefreshesFrom
        (before ++ [{ g with manager := g.manager.reconciled s, target := (g.manager.reconciled s).size }]) failure rest
        es p' v →
      RefreshesFrom before failure (g :: rest)
        (.answered before.length (.status [g.manager.application]) s :: es) p' v

theorem ends_refreshFrom {before rest : List Group} {failure : Option Error} :
    (refreshFrom before failure rest).Ends es p' v ↔ RefreshesFrom before failure rest es p' v := by
  induction rest generalizing before failure es with
  | nil =>
      rw [refreshFrom, ends_done]
      constructor
      · rintro ⟨rfl, rfl, rfl⟩
        exact .done
      · intro h
        cases h
        exact ⟨rfl, rfl, rfl⟩
  | cons g rest ih =>
      rw [refreshFrom, ends_bindIn_map]
      constructor
      · rintro (⟨es', g', h, rfl, rfl, rfl⟩ | ⟨es₁, g', a, es₂, h, hn, rfl⟩)
        · generalize hv : none = w at h
          cases Group.ends_refresh.mp h with
          | @failed e =>
              cases e with
              | none => exact .brokenOff
              | some e => cases hv
          | renewed => cases hv
        · generalize hv : some a = w at h
          cases Group.ends_refresh.mp h with
          | @failed e =>
              cases e with
              | none => cases hv
              | some e =>
                  cases hv
                  obtain ⟨es, rfl, h'⟩ := ends_warn.mp hn
                  exact .failed (ih.mp h')
          | renewed =>
              cases hv
              exact .renewed (ih.mp hn)
      · intro h
        cases h with
        | brokenOff => exact .inl ⟨_, g, Group.ends_refresh.mpr (.failed (e := none)), rfl, rfl, rfl⟩
        | @failed _ _ _ _ e _ _ _ h =>
            exact .inr ⟨_, g, _, _, Group.ends_refresh.mpr (.failed (e := some e)),
              ends_warn.mpr ⟨_, rfl, ih.mpr h⟩, rfl⟩
        | renewed h => exact .inr ⟨_, _, _, _, Group.ends_refresh.mpr .renewed, ih.mpr h, rfl⟩

/-! ## Commands -/

inductive Command where
  /-- The command is for the first group of that id. -/
  | on (id : String) (command : Group.Command)
  | refresh
  deriving DecidableEq

abbrev Turn := Step Command Nat Provider (Except Error Unit)

def act : Command → Provider → Op Unit
  | .on id c, p => p.onGroup id (Group.act c)
  | .refresh, p => p.refresh

/-- The place of the group that is meant by the id. -/
def placeOf? (p : Provider) (id : String) : Option Nat := p.groups.findIdx? (·.id == id)

theorem onGroup_of_none {α : Type} {id : String} (hp : p.placeOf? id = none) (f : Group → Group.Op α) :
    p.onGroup id f = .done p (.error (.groupNotFound id)) := by
  rw [placeOf?, List.findIdx?_eq_map_findFinIdx?_val, Option.map_eq_none_iff] at hp
  rw [onGroup, hp]

theorem onGroup_of_some {α : Type} {id : String} {i : Nat} (hp : p.placeOf? id = some i) (f : Group → Group.Op α) :
    ∃ g, p.groups[i]? = some g ∧ p.onGroup id f = (f g).within (fun _ => i) fun g => ⟨p.groups.set i g⟩ := by
  rw [placeOf?, List.findIdx?_eq_map_findFinIdx?_val, Option.map_eq_some_iff] at hp
  obtain ⟨k, hk, rfl⟩ := hp
  exact ⟨p.groups[k], List.getElem?_eq_getElem k.isLt, by rw [onGroup, hk]⟩

theorem onGroup_eq (p : Provider) (id : String) (f : Group → Group.Op Unit) :
    p.onGroup id f = .done p (.error (.groupNotFound id)) ∨
      ∃ i g, p.placeOf? id = some i ∧ p.groups[i]? = some g ∧
        p.onGroup id f = (f g).within (fun _ => i) fun g => ⟨p.groups.set i g⟩ := by
  cases hp : p.placeOf? id with
  | none => exact .inl (onGroup_of_none hp f)
  | some i =>
      obtain ⟨g, hg, ho⟩ := onGroup_of_some hp f
      exact .inr ⟨i, g, rfl, hg, ho⟩

/-! ## Sessions of the groups -/

/-- Each group has gone through a session of its own, and its fleet has got the calls of that session. -/
structure Advances (before : List Group) (es : List (Event Nat)) (after : List Group) : Prop where
  length_eq : after.length = before.length
  session : ∀ i g, before[i]? = some g →
    ∃ steps g', Session Group.act g steps g' ∧ after[i]? = some g' ∧ callsTo i es = callsTo () (eventsOf steps)

namespace Advances

variable {before after last : List Group} {es' : List (Event Nat)}

theorem refl (before : List Group) : Advances before [] before where
  length_eq := rfl
  session _ g hg := ⟨[], g, .idle, hg, rfl⟩

theorem trans (h : Advances before es after) (h' : Advances after es' last) : Advances before (es ++ es') last where
  length_eq := h'.length_eq.trans h.length_eq
  session i g hg := by
    obtain ⟨steps, g', hs, hg', hc⟩ := h.session i g hg
    obtain ⟨steps', g'', hs', hg'', hc'⟩ := h'.session i g' hg'
    refine ⟨steps ++ steps', g'', hs.trans hs', hg'', ?_⟩
    rw [callsTo_append, hc, hc', eventsOf, eventsOf, eventsOf, List.flatMap_append, callsTo_append]

theorem warn {n : Notice} (h : Advances before es after) : Advances before (.warn n :: es) after :=
  ⟨h.length_eq, h.session⟩

/-- One group carries out a command, and the others stay as they are. -/
theorem set {i : Nat} {c : Group.Command} {g g' : Group} {es : List (Event Unit)} (hg : before[i]? = some g)
    (he : (Group.act c g).Ends es g' v) : Advances before (es.map (Event.map fun _ => i)) (before.set i g') where
  length_eq := List.length_set
  session j f hf := by
    by_cases hj : i = j
    · subst hj
      obtain rfl := Option.some.inj (hg.symm.trans hf)
      refine ⟨_, g', .step .idle he, ?_, ?_⟩
      · rw [List.getElem?_set_self (List.getElem?_eq_some_iff.mp hg).1]
      · rw [callsTo_map, eventsOf, List.nil_append, List.flatMap_singleton]
    · refine ⟨[], f, .idle, ?_, callsTo_map_of_ne hj es⟩
      rw [List.getElem?_set_ne hj, hf]

theorem refresh (before : List Group) (g : Group) (rest : List Group) {g' : Group} {es : List (Event Unit)}
    (he : g.refresh.Ends es g' v) :
    Advances (before ++ g :: rest) (es.map (Event.map fun _ => before.length)) (before ++ [g'] ++ rest) := by
  have hg : (before ++ g :: rest)[before.length]? = some g := by simp
  simpa using Advances.set (c := .refresh) hg he

end Advances

theorem RefreshesFrom.advances {before rest : List Group} {failure : Option Error}
    (h : RefreshesFrom before failure rest es p' v) : Advances (before ++ rest) es p'.groups := by
  induction h with
  | done =>
      rw [List.append_nil]
      exact .refl _
  | @brokenOff before _ g rest =>
      have hs := Advances.refresh before g rest (Group.ends_refresh.mpr (.failed (e := none)))
      rwa [← List.append_cons] at hs
  | @failed before _ g rest e _ _ _ _ ih =>
      exact (Advances.refresh before g rest (Group.ends_refresh.mpr (.failed (e := some e)))).trans ih.warn
  | @renewed before _ g rest _ _ _ _ _ ih =>
      exact (Advances.refresh before g rest (Group.ends_refresh.mpr .renewed)).trans ih

theorem advances_of_ends {c : Command} (he : (act c p).Ends es p' v) : Advances p.groups es p'.groups := by
  cases c with
  | on id c =>
      rcases onGroup_eq p id (Group.act c) with ho | ⟨i, g, -, hg, ho⟩ <;> rw [act, ho] at he
      · obtain ⟨rfl, rfl, -⟩ := ends_done.mp he
        exact .refl p'.groups
      · obtain ⟨es', g', he', rfl, rfl⟩ := ends_within.mp he
        exact .set hg he'
  | refresh => exact (ends_refreshFrom.mp he).advances

theorem advances_of_session {steps : List Turn} (h : Session act p steps p') :
    Advances p.groups (eventsOf steps) p'.groups := by
  induction h with
  | idle => exact .refl p.groups
  | step _ he ih =>
      rw [eventsOf, List.flatMap_append, List.flatMap_singleton]
      exact ih.trans (advances_of_ends he)

end NodeGroups.Provider
