import NodeGroups.Group
import NodeGroups.Proofs.Manager.Ending

/-!
# How the operations of a group end

As for managers, one relation for each operation lists its endings. A group asks its fleet only through its manager, and
its target moves only after an operation of the manager has succeeded.
-/

namespace NodeGroups.Group
open Fleet (Removal)
open Operation
open Manager (ScalesUp)
open Provider (Error)

variable {g g' : Group}

/-- What a group makes of how an operation of its manager has ended. -/
def relay (v : Option (Except Manager.Error Unit)) : Option (Except Error Unit) := v.map (·.mapError .manager)

theorem ends_byManager {op : Manager.Op Unit} {next : Group → Op Unit} {es : List (Event Unit)}
    {v : Option (Except Error Unit)} :
    (g.byManager op next).Ends es g' v ↔
      (∃ m w, op.Ends es m w ∧ w ≠ some (.ok ()) ∧ g' = { g with manager := m } ∧ v = relay w) ∨
        ∃ es₁ m es₂, op.Ends es₁ m (some (.ok ())) ∧ (next { g with manager := m }).Ends es₂ g' v ∧
          es = es₁ ++ es₂ := by
  unfold byManager
  rw [ends_bindIn]
  constructor
  · rintro (⟨m, h, rfl, rfl⟩ | ⟨es₁, m, a, es₂, h, hn, rfl⟩)
    · exact .inl ⟨m, none, h, nofun, rfl, rfl⟩
    · cases a with
      | ok _ => exact .inr ⟨es₁, m, es₂, h, hn, rfl⟩
      | error e =>
          obtain ⟨rfl, rfl, rfl⟩ := ends_done.mp hn
          rw [List.append_nil]
          exact .inl ⟨m, some (.error e), h, nofun, rfl, rfl⟩
  · rintro (⟨m, w, h, hw, rfl, rfl⟩ | ⟨es₁, m, es₂, h, hn, rfl⟩)
    · cases w with
      | none => exact .inl ⟨m, h, rfl, rfl⟩
      | some a =>
          cases a with
          | ok _ => exact absurd rfl hw
          | error e => exact .inr ⟨es, m, .error e, [], h, ends_done.mpr ⟨rfl, rfl, rfl⟩, (List.append_nil es).symm⟩
    · exact .inr ⟨es₁, m, .ok (), es₂, h, hn, rfl⟩

/-- What a group says when a call of its manager is not answered. -/
def unanswered (e : Option Fleet.Error) : Option (Except Error Unit) := e.map fun e => .error (.manager (.fleet e))

theorem relay_unanswered (e : Option Fleet.Error) : relay (Manager.unanswered e) = unanswered e := by
  cases e <;> rfl

/-! ## More units -/

/-- So many more units stay within the maximum, and can be asked for. -/
def Admits (g : Group) (delta : Nat) : Prop :=
  g.target + delta < Text.naturalBound ∧ g.target + delta ≤ g.maxSize ∧ delta < requestBound

/-- The endings of an increase. -/
inductive Increases (g : Group) (delta : Nat) : List (Event Unit) → Group → Option (Except Error Unit) → Prop
  | invalid : delta = 0 → Increases g delta [] g (some (.error (.invalidDelta delta)))
  | tooLarge : delta ≠ 0 → ¬ g.Admits delta →
      Increases g delta [] g
        (some (.error (.increaseTooLarge g.target (min (g.target + delta) (Text.naturalBound - 1)) g.maxSize)))
  | failed {es w} : delta ≠ 0 → g.Admits delta → ScalesUp g.manager delta es g.manager w → w ≠ some (.ok ()) →
      Increases g delta es g (relay w)
  | grown {es m} : delta ≠ 0 → g.Admits delta → ScalesUp g.manager delta es m (some (.ok ())) →
      Increases g delta es { g with manager := m, target := g.target + delta } (some (.ok ()))

theorem ends_increaseSize {delta : Nat} {es : List (Event Unit)} {v : Option (Except Error Unit)} :
    (g.increaseSize delta).Ends es g' v ↔ Increases g delta es g' v := by
  by_cases hd : delta = 0
  · simp only [increaseSize, if_pos hd, ends_done]
    constructor
    · rintro ⟨rfl, rfl, rfl⟩
      exact .invalid hd
    · intro h
      cases h with
      | invalid => exact ⟨rfl, rfl, rfl⟩
      | tooLarge hn | failed hn | grown hn => exact absurd hd hn
  by_cases ha : g.Admits delta
  · have hop : g.increaseSize delta = g.byManager (g.manager.scaleUp delta) fun h =>
        .done { h with target := g.target + delta } (.ok ()) := by
      obtain ⟨hb, hm, hr⟩ := ha
      simp only [increaseSize, if_neg hd, if_neg (Nat.not_le.mpr hb), if_neg (Nat.not_lt.mpr hm),
        if_neg (Nat.not_le.mpr hr)]
    rw [hop, ends_byManager]
    constructor
    · rintro (⟨m, w, h, hw, rfl, rfl⟩ | ⟨es₁, m, es₂, h, hn, rfl⟩)
      · have hs := Manager.ends_scaleUp.mp h
        obtain rfl := hs.eq_of_not_ok hw
        exact .failed hd ha hs hw
      · obtain ⟨rfl, rfl, rfl⟩ := ends_done.mp hn
        rw [List.append_nil]
        exact .grown hd ha (Manager.ends_scaleUp.mp h)
    · intro h
      cases h with
      | invalid h0 => exact absurd h0 hd
      | tooLarge _ hn => exact absurd ha hn
      | failed _ _ h hw => exact .inl ⟨_, _, Manager.ends_scaleUp.mpr h, hw, rfl, rfl⟩
      | grown _ _ h =>
          exact .inr ⟨_, _, [], Manager.ends_scaleUp.mpr h, ends_done.mpr ⟨rfl, rfl, rfl⟩, (List.append_nil _).symm⟩
  · have hop : g.increaseSize delta =
        .done g (.error (.increaseTooLarge g.target (min (g.target + delta) (Text.naturalBound - 1)) g.maxSize)) := by
      simp only [increaseSize, if_neg hd]
      split
      · rw [Nat.min_eq_right (by omega)]
      · rw [Nat.min_eq_left (by omega)]
        split
        · rfl
        · split
          · rfl
          · exact absurd ⟨by omega, by omega, by omega⟩ ha
    rw [hop, ends_done]
    constructor
    · rintro ⟨rfl, rfl, rfl⟩
      exact .tooLarge hd ha
    · intro h
      cases h with
      | invalid h0 => exact absurd h0 hd
      | tooLarge => exact ⟨rfl, rfl, rfl⟩
      | failed _ hn | grown _ hn => exact absurd hn ha

/-! ## Fewer units -/

inductive Deletes : Group → List String → List (Event Unit) → Group → Option (Except Error Unit) → Prop
  | done {g : Group} : Deletes g [] [] g (some (.ok ()))
  | tooSmall {g : Group} {node rest} : g.target ≤ g.minSize →
      Deletes g (node :: rest) [] g (some (.error (.decreaseTooLarge g.target (g.target - 1) g.minSize)))
  | unknown {g : Group} {node rest} : g.minSize < g.target → g.manager.backing? node = none →
      Deletes g (node :: rest) [] g (some (.error (.manager (.unitNotFound node))))
  | refused {g : Group} {node rest id u e} : g.minSize < g.target → g.manager.backing? node = some (id, u) →
      Deletes g (node :: rest) [.failed () (.destroyUnits [id] false false) e]
        { g with manager := g.manager.mark id u } (unanswered e)
  | removed {g g' : Group} {node rest id u} {removals : List Removal} {es v} :
      g.minSize < g.target → g.manager.backing? node = some (id, u) →
      Deletes { g with manager := g.manager.mark id u, target := g.target - 1 } rest es g' v →
      Deletes g (node :: rest)
        (.answered () (.destroyUnits [id] false false) removals :: (Manager.rejections removals).map .warn ++ es) g' v

theorem ends_deleteNodes {nodes : List String} {es : List (Event Unit)} {v : Option (Except Error Unit)} :
    (g.deleteNodes nodes).Ends es g' v ↔ Deletes g nodes es g' v := by
  induction nodes generalizing g es with
  | nil =>
      rw [deleteNodes, ends_done]
      constructor
      · rintro ⟨rfl, rfl, rfl⟩
        exact .done
      · intro h
        cases h with
        | done => exact ⟨rfl, rfl, rfl⟩
  | cons node rest ih =>
      rw [deleteNodes]
      by_cases hg : g.target ≤ g.minSize
      · rw [if_pos (by omega), ends_done]
        constructor
        · rintro ⟨rfl, rfl, rfl⟩
          exact .tooSmall hg
        · intro h
          cases h with
          | tooSmall => exact ⟨rfl, rfl, rfl⟩
          | unknown hn | refused hn | removed hn => exact absurd hg (Nat.not_le.mpr hn)
      · rw [if_neg (by omega), ends_byManager]
        rw [Nat.not_le] at hg
        constructor
        · rintro (⟨m, w, h, hw, rfl, rfl⟩ | ⟨es₁, m, es₂, h, hn, rfl⟩)
          · cases Manager.ends_scaleDown.mp h with
            | unknown hb => exact .unknown hg hb
            | refused hb =>
                rw [relay_unanswered]
                exact .refused hg hb
            | accepted => exact absurd rfl hw
          · obtain ⟨id, u, removals, hb, rfl, rfl⟩ := (Manager.ends_scaleDown.mp h).ok
            exact .removed hg hb (ih.mp hn)
        · intro h
          cases h with
          | tooSmall hn => exact absurd hg (Nat.not_lt.mpr hn)
          | unknown _ hb => exact .inl ⟨_, _, Manager.ends_scaleDown.mpr (.unknown hb), nofun, rfl, rfl⟩
          | @refused _ _ _ _ _ e _ hb =>
              refine .inl ⟨_, _, Manager.ends_scaleDown.mpr (.refused hb), ?_, rfl, (relay_unanswered e).symm⟩
              cases e <;> nofun
          | removed _ hb hr => exact .inr ⟨_, _, _, Manager.ends_scaleDown.mpr (.accepted hb), ih.mpr hr, rfl⟩

/-- The endings of a decrease of the target. It makes no call. -/
inductive Decreases (g : Group) (delta : Nat) : List (Event Unit) → Group → Option (Except Error Unit) → Prop
  | invalid : delta = 0 → Decreases g delta [] g (some (.error (.invalidDelta delta)))
  | tooSmall : delta ≠ 0 → g.target < delta ∨ g.target - delta < g.minSize →
      Decreases g delta [] g (some (.error (.decreaseTooLarge g.target (g.target - delta) g.minSize)))
  | registered : delta ≠ 0 → delta ≤ g.target → g.minSize ≤ g.target - delta → g.target - delta < g.registered →
      Decreases g delta [] g (some (.error (.wouldDeleteNodes g.target (g.target - delta) g.registered)))
  | lowered : delta ≠ 0 → delta ≤ g.target → g.minSize ≤ g.target - delta → g.registered ≤ g.target - delta →
      Decreases g delta [] { g with target := g.target - delta } (some (.ok ()))

theorem ends_decreaseTarget {delta : Nat} {es : List (Event Unit)} {v : Option (Except Error Unit)} :
    (g.decreaseTarget delta).Ends es g' v ↔ Decreases g delta es g' v := by
  unfold decreaseTarget
  dsimp only
  constructor
  · intro h
    split at h
    · next hd =>
      obtain ⟨rfl, rfl, rfl⟩ := ends_done.mp h
      exact .invalid hd
    · next hd =>
      split at h
      · next hs =>
        obtain ⟨rfl, rfl, rfl⟩ := ends_done.mp h
        exact .tooSmall hd hs
      · next hs =>
        rw [not_or, Nat.not_lt, Nat.not_lt] at hs
        split at h
        · next hr =>
          obtain ⟨rfl, rfl, rfl⟩ := ends_done.mp h
          exact .registered hd hs.1 hs.2 hr
        · next hr =>
          obtain ⟨rfl, rfl, rfl⟩ := ends_done.mp h
          exact .lowered hd hs.1 hs.2 (Nat.not_lt.mp hr)
  · intro h
    cases h with
    | invalid hd => rw [if_pos hd, ends_done]; exact ⟨rfl, rfl, rfl⟩
    | tooSmall hd hs => rw [if_neg hd, if_pos hs, ends_done]; exact ⟨rfl, rfl, rfl⟩
    | registered hd hle hs hr =>
        rw [if_neg hd, if_neg (by omega), if_pos hr, ends_done]
        exact ⟨rfl, rfl, rfl⟩
    | lowered hd hle hs hr =>
        rw [if_neg hd, if_neg (by omega), if_neg (Nat.not_lt.mpr hr), ends_done]
        exact ⟨rfl, rfl, rfl⟩

/-! ## Refreshes -/

inductive Refreshes (g : Group) : List (Event Unit) → Group → Option (Except Error Unit) → Prop
  | failed {e} : Refreshes g [.failed () (.status [g.manager.application]) e] g (unanswered e)
  | renewed {s} : Refreshes g [.answered () (.status [g.manager.application]) s]
      { g with manager := g.manager.reconciled s, target := (g.manager.reconciled s).size } (some (.ok ()))

theorem ends_refresh {es : List (Event Unit)} {v : Option (Except Error Unit)} :
    g.refresh.Ends es g' v ↔ Refreshes g es g' v := by
  unfold refresh
  rw [ends_byManager]
  constructor
  · rintro (⟨m, w, h, hw, rfl, rfl⟩ | ⟨es₁, m, es₂, h, hn, rfl⟩)
    · cases Manager.ends_reconcile.mp h with
      | unseen =>
          rw [relay_unanswered]
          exact .failed
      | seen => exact absurd rfl hw
    · obtain ⟨rfl, rfl, rfl⟩ := ends_done.mp hn
      obtain ⟨s, rfl, rfl⟩ := (Manager.ends_reconcile.mp h).ok
      exact .renewed
  · intro h
    cases h with
    | @failed e =>
        refine .inl ⟨_, _, Manager.ends_reconcile.mpr .unseen, ?_, rfl, (relay_unanswered e).symm⟩
        cases e <;> nofun
    | renewed => exact .inr ⟨_, _, [], Manager.ends_reconcile.mpr .seen, ends_done.mpr ⟨rfl, rfl, rfl⟩, rfl⟩

/-! ## Commands -/

inductive Command where
  | increase (delta : Nat)
  | delete (nodes : List String)
  | decrease (delta : Nat)
  | refresh
  deriving DecidableEq

/-- One operation of a group in a session. -/
abbrev Turn := Step Command Unit Group (Except Error Unit)

/-- What a group does on a command. -/
def act : Command → Group → Op Unit
  | .increase delta, g => g.increaseSize delta
  | .delete nodes, g => g.deleteNodes nodes
  | .decrease delta, g => g.decreaseTarget delta
  | .refresh, g => g.refresh

/-- An operation changes the target and the manager only. -/
theorem eq_of_ends {c : Command} {es : List (Event Unit)} {v : Option (Except Error Unit)}
    (h : (act c g).Ends es g' v) : g' = { g with target := g'.target, manager := g'.manager } := by
  cases c with
  | increase delta => cases ends_increaseSize.mp h <;> rfl
  | delete nodes =>
      replace h := ends_deleteNodes.mp h
      induction h with
      | done | tooSmall | unknown | refused => rfl
      | removed _ _ _ ih => exact ih
  | decrease delta => cases ends_decreaseTarget.mp h <;> rfl
  | refresh => cases ends_refresh.mp h <;> rfl

theorem bounds_of_ends {c : Command} {es : List (Event Unit)} {v : Option (Except Error Unit)}
    (h : (act c g).Ends es g' v) : g'.minSize = g.minSize ∧ g'.maxSize = g.maxSize := by
  rw [eq_of_ends h]
  exact ⟨rfl, rfl⟩

theorem bounds_of_session {start : Group} {steps : List Turn} (h : Session act start steps g) :
    g.minSize = start.minSize ∧ g.maxSize = start.maxSize :=
  h.preserves (p := fun g => g.minSize = start.minSize ∧ g.maxSize = start.maxSize) ⟨rfl, rfl⟩ fun _ _ _ _ _ he hb =>
    ⟨(bounds_of_ends he).1.trans hb.1, (bounds_of_ends he).2.trans hb.2⟩

theorem id_of_session {start : Group} {steps : List Turn} (h : Session act start steps g) : g.id = start.id :=
  h.preserves (p := fun g => g.id = start.id) rfl fun _ _ _ _ _ he hi => by rw [eq_of_ends he, hi]

end NodeGroups.Group
