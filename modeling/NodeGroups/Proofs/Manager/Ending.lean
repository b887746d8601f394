import NodeGroups.Manager
import NodeGroups.Proofs.Ending

/-!
# How the operations of a manager end

Each operation makes its calls one after another and stops at the first that is not answered. One relation for each
operation lists its endings, and an operation ends just so.
-/

namespace NodeGroups.Manager
open Fleet (Removal Request Snapshot)
open Operation

variable {α : Type} {m m' : Manager}

/-- What an operation of a manager says when a call is not answered: the error of the call, or nothing if it broke the
operation off. -/
def unanswered (e : Option Fleet.Error) : Option (Except Error α) := e.map fun e => .error (.fleet e)

theorem ends_request {r : Request} {next : Fleet.Outcome r → Op α}
    (hn : ∀ e, next (.error e) = .done m (.error (.fleet e))) {es : List (Event Unit)} {v : Option (Except Error α)} :
    (Operation.call m () r next).Ends es m' v ↔
      (∃ e, es = [.failed () r e] ∧ m' = m ∧ v = unanswered e) ∨
        ∃ a es', es = .answered () r a :: es' ∧ (next (.ok a)).Ends es' m' v :=
  ends_call_of_error hn

theorem ends_fetch {next : Snapshot → Op α} {es : List (Event Unit)} {v : Option (Except Error α)} :
    (m.fetch next).Ends es m' v ↔
      (∃ e, es = [.failed () (.status [m.application]) e] ∧ m' = m ∧ v = unanswered e) ∨
        ∃ s es', es = .answered () (.status [m.application]) s :: es' ∧ (next s).Ends es' m' v := by
  unfold fetch
  exact ends_request fun _ => rfl

/-! ## More units -/

/-- The endings of a request for `count` more units. -/
inductive ScalesUp (m : Manager) (count : Nat) :
    List (Event Unit) → Manager → Option (Except Error Unit) → Prop
  | zero : count = 0 → ScalesUp m count [] m (some (.ok ()))
  | unseen {e} : count ≠ 0 → ScalesUp m count [.failed () (.status [m.application]) e] m (unanswered e)
  | refused {before e} : count ≠ 0 →
      ScalesUp m count
        [.answered () (.status [m.application]) before, .failed () (.addUnits m.application count) e] m (unanswered e)
  | lost {before names e} : count ≠ 0 →
      ScalesUp m count
        [.answered () (.status [m.application]) before, .answered () (.addUnits m.application count) names,
          .failed () (.status [m.application]) e] m (unanswered e)
  | grown {before names after} : count ≠ 0 →
      ScalesUp m count
        ([.answered () (.status [m.application]) before, .answered () (.addUnits m.application count) names,
          .answered () (.status [m.application]) after] ++
          (if (m.fresh before after).size < count then
            [.fewerUnits m.application count (m.fresh before after).size] else []).map .warn)
        (m.track (m.fresh before after).entries) (some (.ok ()))

theorem ends_scaleUp {count : Nat} {es : List (Event Unit)} {v : Option (Except Error Unit)} :
    (m.scaleUp count).Ends es m' v ↔ ScalesUp m count es m' v := by
  unfold scaleUp
  by_cases hc : count = 0
  · rw [if_pos hc, ends_done]
    constructor
    · rintro ⟨rfl, rfl, rfl⟩
      exact .zero hc
    · intro h
      cases h with
      | zero => exact ⟨rfl, rfl, rfl⟩
      | unseen hn | refused hn | lost hn | grown hn => exact absurd hc hn
  · rw [if_neg hc, ends_fetch]
    constructor
    · rintro (⟨e, rfl, rfl, rfl⟩ | ⟨before, es, rfl, h₁⟩)
      · exact .unseen hc
      · rcases (ends_request fun _ => rfl).mp h₁ with ⟨e, rfl, rfl, rfl⟩ | ⟨names, es, rfl, h₂⟩
        · exact .refused hc
        · rcases ends_fetch.mp h₂ with ⟨e, rfl, rfl, rfl⟩ | ⟨after, es, rfl, h₃⟩
          · exact .lost hc
          · obtain ⟨es, rfl, h₄⟩ := ends_warnAll.mp h₃
            obtain ⟨rfl, rfl, rfl⟩ := ends_done.mp h₄
            rw [List.append_nil]
            exact .grown hc
    · intro h
      cases h with
      | zero h0 => exact absurd h0 hc
      | unseen => exact .inl ⟨_, rfl, rfl, rfl⟩
      | refused =>
          refine .inr ⟨_, _, rfl, (ends_request fun _ => rfl).mpr ?_⟩
          exact .inl ⟨_, rfl, rfl, rfl⟩
      | lost =>
          refine .inr ⟨_, _, rfl, (ends_request fun _ => rfl).mpr ?_⟩
          exact .inr ⟨_, _, rfl, ends_fetch.mpr (.inl ⟨_, rfl, rfl, rfl⟩)⟩
      | grown =>
          refine .inr ⟨_, _, rfl, (ends_request fun _ => rfl).mpr ?_⟩
          refine .inr ⟨_, _, rfl, ends_fetch.mpr (.inr ⟨_, _, rfl, ends_warnAll.mpr ⟨[], ?_, ?_⟩⟩)⟩
          · rw [List.append_nil]
            rfl
          · exact ends_done.mpr ⟨rfl, rfl, rfl⟩

theorem ScalesUp.eq_of_not_ok {count : Nat} {es : List (Event Unit)} {v : Option (Except Error Unit)}
    (h : ScalesUp m count es m' v) (hv : v ≠ some (.ok ())) : m' = m := by
  cases h with
  | zero | grown => exact absurd rfl hv
  | unseen | refused | lost => rfl

theorem ScalesUp.exists_failed {count : Nat} {es : List (Event Unit)} {v : Option (Except Error Unit)}
    (h : ScalesUp m count es m' v) (hv : v ≠ some (.ok ())) : ∃ r e, .failed () r e ∈ es := by
  cases h with
  | zero | grown => exact absurd rfl hv
  | unseen | refused | lost => exact ⟨_, _, List.mem_of_getLast? rfl⟩

theorem ScalesUp.ok {count : Nat} {es : List (Event Unit)} (h : ScalesUp m count es m' (some (.ok ())))
    (hc : count ≠ 0) :
    ∃ before names after, m' = m.track (m.fresh before after).entries ∧
      es = [.answered () (.status [m.application]) before, .answered () (.addUnits m.application count) names,
        .answered () (.status [m.application]) after] ++
          (if (m.fresh before after).size < count then
            [.fewerUnits m.application count (m.fresh before after).size] else []).map .warn := by
  generalize hv : some (Except.ok ()) = v at h
  cases h with
  | zero h0 => exact absurd h0 hc
  | @unseen e | @refused _ e | @lost _ _ e => cases e <;> cases hv
  | grown => exact ⟨_, _, _, rfl, rfl⟩

/-! ## Fewer units -/

/-- What is said of units that the fleet does not remove though it has accepted the request. -/
def rejections (removals : List Removal) : List Notice :=
  removals.filterMap fun r => r.error.map (.removalRejected r.unit)

/-- The endings of the removal of a node whose unit has been looked for. -/
inductive ScalesDownTo (m : Manager) (found : Option (String × TrackedUnit)) (node : String) :
    List (Event Unit) → Manager → Option (Except Error Unit) → Prop
  | unknown : found = none → ScalesDownTo m found node [] m (some (.error (.unitNotFound node)))
  | refused {id u e} : found = some (id, u) →
      ScalesDownTo m found node [.failed () (.destroyUnits [id] false false) e] (m.mark id u) (unanswered e)
  | accepted {id u} {removals : List Removal} : found = some (id, u) →
      ScalesDownTo m found node
        (.answered () (.destroyUnits [id] false false) removals ::
          (rejections removals).map .warn)
        (m.mark id u) (some (.ok ()))

abbrev ScalesDown (m : Manager) (node : String) :
    List (Event Unit) → Manager → Option (Except Error Unit) → Prop :=
  ScalesDownTo m (m.backing? node) node

theorem ends_scaleDownIn {scan : List (String × TrackedUnit)} {node : String} {es : List (Event Unit)}
    {v : Option (Except Error Unit)} :
    (m.scaleDownIn scan node).Ends es m' v ↔ ScalesDownTo m (backingIn scan node) node es m' v := by
  unfold scaleDownIn
  cases backingIn scan node with
  | none =>
      rw [ends_done]
      constructor
      · rintro ⟨rfl, rfl, rfl⟩
        exact .unknown rfl
      · intro h
        cases h with
        | unknown => exact ⟨rfl, rfl, rfl⟩
        | refused hu | accepted hu => cases hu
  | some e =>
      obtain ⟨id, u⟩ := e
      refine (ends_request fun _ => rfl).trans ?_
      constructor
      · rintro (⟨e, rfl, rfl, rfl⟩ | ⟨removals, es, rfl, h₁⟩)
        · exact .refused rfl
        · obtain ⟨es, rfl, h₂⟩ := ends_warnAll.mp h₁
          obtain ⟨rfl, rfl, rfl⟩ := ends_done.mp h₂
          rw [List.append_nil]
          exact .accepted rfl
      · intro h
        cases h with
        | unknown hu => cases hu
        | refused hu =>
            cases hu
            exact .inl ⟨_, rfl, rfl, rfl⟩
        | accepted hu =>
            cases hu
            exact .inr ⟨_, _, rfl, ends_warnAll.mpr ⟨[], (List.append_nil _).symm, ends_done.mpr ⟨rfl, rfl, rfl⟩⟩⟩

theorem ends_scaleDown {node : String} {es : List (Event Unit)} {v : Option (Except Error Unit)} :
    (m.scaleDown node).Ends es m' v ↔ ScalesDown m node es m' v :=
  ends_scaleDownIn

theorem ScalesDownTo.ok {found : Option (String × TrackedUnit)} {node : String} {es : List (Event Unit)}
    (h : ScalesDownTo m found node es m' (some (.ok ()))) :
    ∃ id u removals, found = some (id, u) ∧ m' = m.mark id u ∧
      es = .answered () (.destroyUnits [id] false false) removals ::
        (rejections removals).map .warn := by
  generalize hv : some (Except.ok ()) = v at h
  cases h with
  | unknown => cases hv
  | @refused _ _ e => cases e <;> cases hv
  | accepted hb => exact ⟨_, _, _, hb, rfl, rfl⟩

/-! ## Reconciliation -/

inductive Reconciles (m : Manager) : List (Event Unit) → Manager → Option (Except Error Unit) → Prop
  | unseen {e} : Reconciles m [.failed () (.status [m.application]) e] m (unanswered e)
  | seen {s} : Reconciles m [.answered () (.status [m.application]) s] (m.reconciled s) (some (.ok ()))

theorem ends_reconcile {es : List (Event Unit)} {v : Option (Except Error Unit)} :
    m.reconcile.Ends es m' v ↔ Reconciles m es m' v := by
  unfold reconcile
  rw [ends_fetch]
  constructor
  · rintro (⟨e, rfl, rfl, rfl⟩ | ⟨s, es, rfl, h⟩)
    · exact .unseen
    · obtain ⟨rfl, rfl, rfl⟩ := ends_done.mp h
      exact .seen
  · intro h
    cases h with
    | unseen => exact .inl ⟨_, rfl, rfl, rfl⟩
    | seen => exact .inr ⟨_, _, rfl, ends_done.mpr ⟨rfl, rfl, rfl⟩⟩

theorem Reconciles.ok {es : List (Event Unit)} (h : Reconciles m es m' (some (.ok ()))) :
    ∃ s, m' = m.reconciled s ∧ es = [.answered () (.status [m.application]) s] := by
  generalize hv : some (Except.ok ()) = v at h
  cases h with
  | @unseen e => cases e <;> cases hv
  | seen => exact ⟨_, rfl, rfl⟩

/-! ## Commands -/

inductive Command where
  | scaleUp (count : Nat)
  | scaleDown (node : String)
  | reconcile
  deriving DecidableEq

/-- One operation of a manager in a session. -/
abbrev Turn := Step Command Unit Manager (Except Error Unit)

/-- What a manager does on a command. -/
def act : Command → Manager → Op Unit
  | .scaleUp count, m => m.scaleUp count
  | .scaleDown node, m => m.scaleDown node
  | .reconcile, m => m.reconcile

/-! ## Commands that go over the units in any order -/

/-- An order for whatever units are tracked. -/
structure Scan where
  entries : Table TrackedUnit → List (String × TrackedUnit)
  perm : ∀ t, (entries t).Perm t.entries

def Scan.ascending : Scan := ⟨Table.entries, fun _ => .refl _⟩

def Scan.descending : Scan := ⟨fun t => t.entries.reverse, fun t => t.entries.reverse_perm⟩

/-- A command, and the order in which it goes over the units. -/
structure Instruction where
  command : Command
  scan : Scan

/-- One instruction of a manager in a session. -/
abbrev ScanTurn := Step Instruction Unit Manager (Except Error Unit)

/-- What a manager does on an instruction. -/
def follow (i : Instruction) (m : Manager) : Op Unit :=
  match i.command with
  | .scaleUp count => m.scaleUp count
  | .scaleDown node => m.scaleDownIn (i.scan.entries m.units) node
  | .reconcile => m.reconcile

theorem act_eq_follow (c : Command) (m : Manager) : act c m = follow ⟨c, .ascending⟩ m := by
  cases c <;> rfl

end NodeGroups.Manager
