import Mathlib.Data.List.Induction
import NodeGroups.Operation

/-!
# How operations end

`Ends` holds of all that fleets can make of an operation: what happens in it, the state it leaves and its value. It is
said through `run`, and worked out here for each form of an operation. A session is a row of operations, each of which
starts from the state that the one before it left; `Since` tells what has held in it from one of its steps on.
-/

namespace NodeGroups.Operation
open Fleet (Request)

variable {ι κ σ τ α β φ : Type}

/-- Fleets can answer so that these events happen, apart from delays, and that state and value come of it. Without a
value the operation has broken off. -/
def Ends (op : Operation ι σ α) (events : List (Event ι)) (state : σ) (value : Option α) : Prop :=
  ∃ (φ : Type) (reply : Fleets φ ι) (fleets : φ),
    (op.run reply fleets).events.filter (!·.isLate) = events ∧ (op.run reply fleets).state = state ∧
      (op.run reply fleets).value = value

theorem Ends.of_run (reply : Fleets φ ι) (fleets : φ) (op : Operation ι σ α) :
    op.Ends ((op.run reply fleets).events.filter (!·.isLate)) (op.run reply fleets).state (op.run reply fleets).value :=
  ⟨φ, reply, fleets, rfl, rfl, rfl⟩

/-- A call that has come back with an error, or broken the operation off. -/
abbrev Event.failed (i : ι) (r : Request) (e : Option Fleet.Error) : Event ι := .call i r (e.map .error)

abbrev Event.answered (i : ι) (r : Request) (a : r.Answer) : Event ι := .call i r (some (.ok a))

/-! ## The forms of an operation -/

/-- Fleets that reply once as told, and then as others do. -/
private def replyFirst {r : Request} (first : Reply r.Answer) (reply : Fleets φ ι) (fleets : φ) :
    Fleets (Option φ) ι
  | none, _, r' => (some fleets, if h : r = r' then h ▸ first else { outcome := none })
  | some fleets, i, r' => ((reply fleets i r').map some id)

private theorem run_replyFirst {r : Request} (first : Reply r.Answer) (reply : Fleets φ ι) (start : φ) :
    (op : Operation ι σ α) → (fleets : φ) →
      (op.run (replyFirst first reply start) (some fleets)).events = (op.run reply fleets).events ∧
      (op.run (replyFirst first reply start) (some fleets)).state = (op.run reply fleets).state ∧
      (op.run (replyFirst first reply start) (some fleets)).value = (op.run reply fleets).value
  | done _ _, _ => ⟨rfl, rfl, rfl⟩
  | warn n rest, fleets => by
      obtain ⟨he, hs, hv⟩ := run_replyFirst first reply start rest fleets
      exact ⟨congrArg (Event.warn n :: ·) he, hs, hv⟩
  | call s i r' k, fleets => by
      simp only [run, replyFirst, Prod.map_fst, Prod.map_snd, id]
      cases ho : (reply fleets i r').2.outcome with
      | none => exact ⟨rfl, rfl, rfl⟩
      | some o =>
          obtain ⟨he, hs, hv⟩ := run_replyFirst first reply start (k o) (reply fleets i r').1
          exact ⟨congrArg (_ ++ ·) he, hs, hv⟩

theorem ends_done {s t : σ} {a : α} {es : List (Event ι)} {v : Option α} :
    (done s a).Ends es t v ↔ es = [] ∧ t = s ∧ v = some a := by
  constructor
  · rintro ⟨φ, reply, fleets, rfl, rfl, rfl⟩
    exact ⟨rfl, rfl, rfl⟩
  · rintro ⟨rfl, rfl, rfl⟩
    exact ⟨Unit, fun _ _ _ => ((), { outcome := none }), (), rfl, rfl, rfl⟩

theorem ends_warn {n : Notice} {op : Operation ι σ α} {es : List (Event ι)} {t : σ} {v : Option α} :
    (warn n op).Ends es t v ↔ ∃ es', es = .warn n :: es' ∧ op.Ends es' t v := by
  constructor
  · rintro ⟨φ, reply, fleets, rfl, rfl, rfl⟩
    exact ⟨_, rfl, .of_run reply fleets op⟩
  · rintro ⟨_, rfl, φ, reply, fleets, rfl, rfl, rfl⟩
    exact ⟨φ, reply, fleets, rfl, rfl, rfl⟩

theorem ends_call {s t : σ} {i : ι} {r : Request} {k : Fleet.Outcome r → Operation ι σ α} {es : List (Event ι)}
    {v : Option α} :
    (call s i r k).Ends es t v ↔
      (es = [.call i r none] ∧ t = s ∧ v = none) ∨
        ∃ o es', es = .call i r (some o) :: es' ∧ (k o).Ends es' t v := by
  constructor
  · rintro ⟨φ, reply, fleets, rfl, rfl, rfl⟩
    simp only [run]
    cases ho : (reply fleets i r).2.outcome with
    | none =>
        left
        cases (reply fleets i r).2.late <;> exact ⟨rfl, rfl, rfl⟩
    | some o =>
        right
        refine ⟨o, _, ?_, .of_run reply (reply fleets i r).1 (k o)⟩
        cases (reply fleets i r).2.late <;> rfl
  · rintro (⟨rfl, rfl, rfl⟩ | ⟨o, _, rfl, φ, reply, fleets, rfl, rfl, rfl⟩)
    · exact ⟨Unit, fun _ _ _ => ((), { outcome := none }), (), rfl, rfl, rfl⟩
    · -- fleets that give this outcome first, and then do as those of the rest
      obtain ⟨he, hs, hv⟩ := run_replyFirst { outcome := some o } reply fleets (k o) fleets
      refine ⟨Option φ, replyFirst { outcome := some o } reply fleets, none, ?_, ?_, ?_⟩
      · simp [run, replyFirst, Run.after, he, Event.isLate]
      · simpa [run, replyFirst, Run.after] using hs
      · simpa [run, replyFirst, Run.after] using hv

/-- A call that gives up on an error ends there, with the error or broken off, or goes on with an answer. -/
theorem ends_call_of_error {ε : Type} {f : Fleet.Error → ε} {s t : σ} {i : ι} {r : Request}
    {k : Fleet.Outcome r → Operation ι σ (Except ε α)} (hk : ∀ e, k (.error e) = done s (.error (f e)))
    {es : List (Event ι)} {v : Option (Except ε α)} :
    (call s i r k).Ends es t v ↔
      (∃ e, es = [.failed i r e] ∧ t = s ∧ v = e.map fun e => .error (f e)) ∨
        ∃ a es', es = .answered i r a :: es' ∧ (k (.ok a)).Ends es' t v := by
  rw [ends_call]
  constructor
  · rintro (⟨rfl, rfl, rfl⟩ | ⟨o, es', rfl, h⟩)
    · exact .inl ⟨none, rfl, rfl, rfl⟩
    · cases o with
      | error e =>
          rw [hk, ends_done] at h
          obtain ⟨rfl, rfl, rfl⟩ := h
          exact .inl ⟨some e, rfl, rfl, rfl⟩
      | ok a => exact .inr ⟨a, es', rfl, h⟩
  · rintro (⟨e, rfl, rfl, rfl⟩ | ⟨a, es', rfl, h⟩)
    · cases e with
      | none => exact .inl ⟨rfl, rfl, rfl⟩
      | some e =>
          refine .inr ⟨.error e, [], rfl, ?_⟩
          rw [hk, ends_done]
          exact ⟨rfl, rfl, rfl⟩
    · exact .inr ⟨.ok a, es', rfl, h⟩

theorem ends_warnAll {op : Operation ι σ α} {t : σ} {v : Option α} :
    {ns : List Notice} → {es : List (Event ι)} →
      ((warnAll ns op).Ends es t v ↔ ∃ es', es = ns.map .warn ++ es' ∧ op.Ends es' t v)
  | [], es => by simp [warnAll]
  | n :: ns, es => by
      have ih : ∀ es, (warnAll ns op).Ends es t v ↔ _ := fun _ => ends_warnAll
      simp only [warnAll, List.foldr_cons, ends_warn] at ih ⊢
      constructor
      · rintro ⟨es₁, rfl, h⟩
        obtain ⟨es₂, rfl, h'⟩ := (ih es₁).mp h
        exact ⟨es₂, rfl, h'⟩
      · rintro ⟨es₂, rfl, h⟩
        exact ⟨_, rfl, (ih _).mpr ⟨es₂, rfl, h⟩⟩

/-- The event as it is known where the fleet is one of others. -/
def Event.map (fleet : ι → κ) : Event ι → Event κ
  | .call i r o => .call (fleet i) r o
  | .warn n => .warn n
  | .late => .late

theorem Event.map_id (es : List (Event ι)) : es.map (Event.map fun i => i) = es := by
  have hm : Event.map (fun i : ι => i) = id := by
    funext e
    cases e <;> rfl
  rw [hm, List.map_id]

/-- An operation on a part breaks off, or ends and is gone on with. -/
theorem ends_bindIn_map {fleet : ι → κ} {put : σ → τ} {next : σ → α → Operation κ τ β} {t : τ} {v : Option β} :
    (op : Operation ι σ α) → {es : List (Event κ)} →
      ((op.bindIn fleet put next).Ends es t v ↔
        (∃ es' s, op.Ends es' s none ∧ es = es'.map (Event.map fleet) ∧ t = put s ∧ v = none) ∨
          ∃ es₁ s a es₂, op.Ends es₁ s (some a) ∧ (next s a).Ends es₂ t v ∧
            es = es₁.map (Event.map fleet) ++ es₂)
  | done s a, es => by
      simp [bindIn, ends_done]
  | warn n rest, es => by
      have ih : ∀ es, (rest.bindIn fleet put next).Ends es t v ↔ _ := fun _ => ends_bindIn_map rest
      simp only [bindIn, ends_warn, ih]
      constructor
      · rintro ⟨_, rfl, ⟨es', s, h, rfl, rfl, rfl⟩ | ⟨es₁, s, a, es₂, h, hn, rfl⟩⟩
        · exact .inl ⟨_, s, ⟨es', rfl, h⟩, rfl, rfl, rfl⟩
        · exact .inr ⟨_, s, a, es₂, ⟨es₁, rfl, h⟩, hn, rfl⟩
      · rintro (⟨_, s, ⟨es', rfl, h⟩, rfl, rfl, rfl⟩ | ⟨_, s, a, es₂, ⟨es₁, rfl, h⟩, hn, rfl⟩)
        · exact ⟨_, rfl, .inl ⟨es', s, h, rfl, rfl, rfl⟩⟩
        · exact ⟨_, rfl, .inr ⟨es₁, s, a, es₂, h, hn, rfl⟩⟩
  | call s i r k, es => by
      have ih : ∀ o es, ((k o).bindIn fleet put next).Ends es t v ↔ _ := fun o _ => ends_bindIn_map (k o)
      simp only [bindIn, ends_call, ih]
      constructor
      · rintro (⟨rfl, rfl, rfl⟩ | ⟨o, _, rfl, ⟨es', s', h, rfl, rfl, rfl⟩ | ⟨es₁, s', a, es₂, h, hn, rfl⟩⟩)
        · exact .inl ⟨_, s, .inl ⟨rfl, rfl, trivial⟩, rfl, rfl, rfl⟩
        · exact .inl ⟨_, s', .inr ⟨o, es', rfl, h⟩, rfl, rfl, rfl⟩
        · exact .inr ⟨_, s', a, es₂, .inr ⟨o, es₁, rfl, h⟩, hn, rfl⟩
      · rintro (⟨_, s', ⟨rfl, rfl, -⟩ | ⟨o, es', rfl, h⟩, rfl, rfl, rfl⟩ |
          ⟨_, s', a, es₂, ⟨-, -, hv⟩ | ⟨o, es₁, rfl, h⟩, hn, rfl⟩)
        · exact .inl ⟨rfl, rfl, rfl⟩
        · exact .inr ⟨o, _, rfl, .inl ⟨es', s', h, rfl, rfl, rfl⟩⟩
        · cases hv
        · exact .inr ⟨o, _, rfl, .inr ⟨es₁, s', a, es₂, h, hn, rfl⟩⟩

theorem ends_bindIn {put : σ → τ} {next : σ → α → Operation ι τ β} {t : τ} {v : Option β} (op : Operation ι σ α)
    {es : List (Event ι)} :
    (op.bindIn (fun i => i) put next).Ends es t v ↔
      (∃ s, op.Ends es s none ∧ t = put s ∧ v = none) ∨
        ∃ es₁ s a es₂, op.Ends es₁ s (some a) ∧ (next s a).Ends es₂ t v ∧ es = es₁ ++ es₂ := by
  simp only [ends_bindIn_map, Event.map_id]
  constructor
  · rintro (⟨_, s, h, rfl, ht⟩ | h)
    · exact .inl ⟨s, h, ht⟩
    · exact .inr h
  · rintro (⟨s, h, ht⟩ | h)
    · exact .inl ⟨_, s, h, rfl, ht⟩
    · exact .inr h

/-- An operation whose value is only reported on. -/
theorem ends_of_bind_done {op : Operation ι σ α} {f : σ → α → β} {es : List (Event ι)} {t : σ} {b : β}
    (h : (op.bind fun s a => done s (f s a)).Ends es t (some b)) : ∃ a, op.Ends es t (some a) ∧ b = f t a := by
  rcases (ends_bindIn op).mp h with ⟨_, -, -, hv⟩ | ⟨es₁, s, a, _, ha, hd, rfl⟩
  · cases hv
  · obtain ⟨rfl, rfl, hv⟩ := ends_done.mp hd
    rw [List.append_nil]
    exact ⟨a, ha, Option.some.inj hv⟩

theorem ends_within {fleet : ι → κ} {put : σ → τ} {op : Operation ι σ α} {es : List (Event κ)} {t : τ} {v : Option α} :
    (op.within fleet put).Ends es t v ↔ ∃ es' s, op.Ends es' s v ∧ es = es'.map (Event.map fleet) ∧ t = put s := by
  rw [within, ends_bindIn_map]
  constructor
  · rintro (⟨es', s, h, he, ht, rfl⟩ | ⟨es₁, s, a, _, h, hd, rfl⟩)
    · exact ⟨es', s, h, he, ht⟩
    · obtain ⟨rfl, rfl, rfl⟩ := ends_done.mp hd
      exact ⟨es₁, s, h, List.append_nil _, rfl⟩
  · rintro ⟨es', s, h, rfl, rfl⟩
    cases v with
    | none => exact .inl ⟨es', s, h, rfl, rfl, rfl⟩
    | some a => exact .inr ⟨es', s, a, [], h, ends_done.mpr ⟨rfl, rfl, rfl⟩, (List.append_nil _).symm⟩

/-! ## Calls -/

/-- After these events the operation makes the call, in the state that it leaves if it breaks off there. -/
def Asks (op : Operation ι σ α) (es : List (Event ι)) (i : ι) (r : Request) (s : σ) : Prop :=
  op.Ends (es ++ [.call i r none]) s none

theorem Ends.exists_asks {i : ι} {r : Request} {o : Option (Fleet.Outcome r)} {es' : List (Event ι)} {t : σ} {v : Option α} :
    {op : Operation ι σ α} → {es : List (Event ι)} → op.Ends (es ++ .call i r o :: es') t v → ∃ s, op.Asks es i r s
  | done _ _, _, h => by simp [ends_done] at h
  | warn n rest, es, h => by
      obtain ⟨es₁, he, h'⟩ := ends_warn.mp h
      cases es with
      | nil => cases he
      | cons e es =>
          obtain ⟨rfl, rfl⟩ := List.cons.inj he
          obtain ⟨s, hs⟩ := Ends.exists_asks h'
          exact ⟨s, ends_warn.mpr ⟨_, rfl, hs⟩⟩
  | call s j q k, es, h => by
      cases es with
      | nil =>
          rcases ends_call.mp h with ⟨he, -, -⟩ | ⟨o', es₁, he, -⟩ <;>
          · cases he
            exact ⟨s, ends_call.mpr (.inl ⟨rfl, rfl, rfl⟩)⟩
      | cons e es =>
          rcases ends_call.mp h with ⟨he, -, -⟩ | ⟨o', es₁, he, h'⟩
          · simp at he
          · obtain ⟨rfl, rfl⟩ := List.cons.inj he
            obtain ⟨s', hs⟩ := Ends.exists_asks h'
            exact ⟨s', ends_call.mpr (.inr ⟨o', _, rfl, hs⟩)⟩

/-- An operation that has broken off has done so in a call. -/
theorem Ends.exists_of_none {t : σ} : {op : Operation ι σ α} → {es : List (Event ι)} → op.Ends es t none →
    ∃ es' i r, es = es' ++ [.call i r none]
  | done _ _, _, h => nomatch (ends_done.mp h).2.2
  | warn n rest, _, h => by
      obtain ⟨_, rfl, h'⟩ := ends_warn.mp h
      obtain ⟨es', i, r, rfl⟩ := Ends.exists_of_none h'
      exact ⟨.warn n :: es', i, r, rfl⟩
  | call s i r k, _, h => by
      rcases ends_call.mp h with ⟨rfl, -, -⟩ | ⟨o, _, rfl, h'⟩
      · exact ⟨[], i, r, rfl⟩
      · obtain ⟨es', i', r', rfl⟩ := Ends.exists_of_none h'
        exact ⟨.call i r (some o) :: es', i', r', rfl⟩

theorem asks_within {fleet : ι → κ} {put : σ → τ} {op : Operation ι σ α} {es : List (Event κ)} {k : κ} {r : Request}
    {t : τ} :
    (op.within fleet put).Asks es k r t ↔
      ∃ es' i s, op.Asks es' i r s ∧ es = es'.map (Event.map fleet) ∧ k = fleet i ∧ t = put s := by
  rw [Asks, ends_within]
  constructor
  · rintro ⟨es₁, s, h, he, rfl⟩
    obtain ⟨es', i, q, rfl⟩ := h.exists_of_none
    rw [List.map_append] at he
    obtain ⟨rfl, hc⟩ := List.append_inj' he rfl
    cases hc
    exact ⟨es', i, s, h, rfl, rfl, rfl⟩
  · rintro ⟨es', i, s, h, rfl, rfl, rfl⟩
    refine ⟨_, s, h, ?_, rfl⟩
    rw [List.map_append]
    rfl

/-! ## What fleets have been asked -/

def Event.snapshot? : Event ι → Option Fleet.Snapshot
  | .call _ (.status _) (some (.ok s)) => some s
  | _ => none

/-- The snapshots that have been fetched, in order. -/
def fetched (events : List (Event ι)) : List Fleet.Snapshot := events.filterMap Event.snapshot?

def Event.asked : Event ι → List String
  | .call _ (.destroyUnits units _ _) _ => units
  | _ => []

/-- The units that a call was to remove, if the fleet has accepted it. -/
def Event.accepted : Event ι → List String
  | .call _ (.destroyUnits units _ _) (some (.ok _)) => units
  | _ => []

def Event.isRemoval : Event ι → Bool
  | .call _ (.destroyUnits ..) _ => true
  | _ => false

/-- The call was to remove the unit, and the fleet has answered it without an error for the unit. -/
def Event.removes (id : String) : Event ι → Bool
  | .call _ (.destroyUnits units _ _) (some (.ok removals)) =>
      units.contains id && removals.all fun r => r.unit != id || r.error.isNone
  | _ => false

/-- The units that have been asked to be removed, in order and as often as they have been. -/
def asked (events : List (Event ι)) : List String := events.flatMap Event.asked

/-- The units whose removal has been accepted, in order and as often as it has been. -/
def accepted (events : List (Event ι)) : List String := events.flatMap Event.accepted

/-- How many units a call has asked for, if the fleet has accepted it. -/
def Event.added : Event ι → Nat
  | .call _ (.addUnits _ count) (some (.ok _)) => count
  | _ => 0

def added : List (Event ι) → Nat
  | [] => 0
  | e :: es => e.added + added es

theorem asked_map (fleet : ι → κ) (es : List (Event ι)) : asked (es.map (Event.map fleet)) = asked es := by
  rw [asked, List.flatMap_map]
  congr
  funext e
  cases e with
  | call _ r _ => cases r <;> rfl
  | warn | late => rfl

@[simp] theorem fetched_append (es es' : List (Event ι)) : fetched (es ++ es') = fetched es ++ fetched es' :=
  List.filterMap_append

@[simp] theorem asked_append (es es' : List (Event ι)) : asked (es ++ es') = asked es ++ asked es' :=
  List.flatMap_append

@[simp] theorem accepted_append (es es' : List (Event ι)) : accepted (es ++ es') = accepted es ++ accepted es' :=
  List.flatMap_append

@[simp] theorem fetched_map_warn (ns : List Notice) : fetched (ns.map (Event.warn (ι := ι))) = [] := by
  simp [fetched, Event.snapshot?]

@[simp] theorem asked_map_warn (ns : List Notice) : asked (ns.map (Event.warn (ι := ι))) = [] := by
  simp [asked, Event.asked]

@[simp] theorem accepted_map_warn (ns : List Notice) : accepted (ns.map (Event.warn (ι := ι))) = [] := by
  simp [accepted, Event.accepted]

@[simp] theorem accepted_failed (i : ι) (r : Request) (e : Option Fleet.Error) : accepted [.failed i r e] = [] := by
  cases r <;> cases e <;> rfl

@[simp] theorem added_append (es es' : List (Event ι)) : added (es ++ es') = added es + added es' := by
  induction es with
  | nil => exact (Nat.zero_add _).symm
  | cons e es ih => exact (congrArg (e.added + ·) ih).trans (Nat.add_assoc ..).symm

@[simp] theorem added_map_warn (ns : List Notice) : added (ns.map (Event.warn (ι := ι))) = 0 := by
  induction ns with
  | nil => rfl
  | cons n ns ih => exact (Nat.zero_add _).trans ih

theorem asked_removal (i : ι) (units : List String) (removals : List Fleet.Removal) (ns : List Notice)
    (es : List (Event ι)) :
    asked (.answered i (.destroyUnits units false false) removals :: ns.map .warn ++ es) = units ++ asked es := by
  rw [asked_append, asked, List.flatMap_cons, ← asked, asked_map_warn, List.append_nil]
  rfl

theorem accepted_removal (i : ι) (units : List String) (removals : List Fleet.Removal) (ns : List Notice)
    (es : List (Event ι)) :
    accepted (.answered i (.destroyUnits units false false) removals :: ns.map .warn ++ es) = units ++ accepted es := by
  rw [accepted_append, accepted, List.flatMap_cons, ← accepted, accepted_map_warn, List.append_nil]
  rfl

/-! ## Calls to one of several fleets -/

/-- The event is a call to the fleet, told as if there were no other. -/
def Event.to? [DecidableEq ι] (i : ι) : Event ι → Option (Event Unit)
  | .call j r o => if j = i then some (.call () r o) else none
  | _ => none

def callsTo [DecidableEq ι] (i : ι) (es : List (Event ι)) : List (Event Unit) := es.filterMap (Event.to? i)

section CallsTo
variable [DecidableEq ι] {i j : ι}

@[simp] theorem callsTo_append (i : ι) (es es' : List (Event ι)) :
    callsTo i (es ++ es') = callsTo i es ++ callsTo i es' :=
  List.filterMap_append

theorem mem_callsTo_iff {r : Request} {o : Option (Fleet.Outcome r)} {es : List (Event ι)} :
    .call () r o ∈ callsTo i es ↔ .call i r o ∈ es := by
  rw [callsTo, List.mem_filterMap]
  constructor
  · rintro ⟨e, he, ht⟩
    cases e with
    | call k q o =>
        rw [Event.to?] at ht
        split at ht
        · next hk =>
          subst hk
          cases ht
          exact he
        · cases ht
    | warn | late => cases ht
  · intro he
    exact ⟨_, he, if_pos rfl⟩

theorem callsTo_map (i : ι) (es : List (Event Unit)) : callsTo i (es.map (Event.map fun _ => i)) = callsTo () es := by
  rw [callsTo, List.filterMap_map, callsTo]
  congr
  funext e
  cases e <;> simp [Event.map, Event.to?]

theorem callsTo_map_of_ne (h : j ≠ i) (es : List (Event Unit)) : callsTo i (es.map (Event.map fun _ => j)) = [] := by
  rw [callsTo, List.filterMap_map, List.filterMap_eq_nil_iff]
  intro e _
  cases e <;> simp [Event.map, Event.to?, h]

end CallsTo

/-! ## Sessions -/

/-- One operation of a session: what was asked for in which state, and what came of it. -/
structure Step (κ ι σ α : Type) where
  command : κ
  before : σ
  events : List (Event ι)
  after : σ
  value : Option α

/-- Commands carried out one after another from a state on, each with whatever fleets make of it. -/
inductive Session (act : κ → σ → Operation ι σ α) (start : σ) : List (Step κ ι σ α) → σ → Prop
  | idle : Session act start [] start
  | step {steps : List (Step κ ι σ α)} {s t : σ} {c : κ} {es : List (Event ι)} {v : Option α} :
      Session act start steps s → (act c s).Ends es t v → Session act start (steps ++ [⟨c, s, es, t, v⟩]) t

def eventsOf (steps : List (Step κ ι σ α)) : List (Event ι) := steps.flatMap (·.events)

namespace Session
variable {act : κ → σ → Operation ι σ α} {s t : σ} {steps steps' : List (Step κ ι σ α)} {d : Step κ ι σ α}

theorem trans {u : σ} (h : Session act s steps t) (h' : Session act t steps' u) :
    Session act s (steps ++ steps') u := by
  induction h' with
  | idle => rwa [List.append_nil]
  | step _ he ih =>
      rw [← List.append_assoc]
      exact .step ih he

theorem last {all : List (Step κ ι σ α)} (h : Session act s all t) (hd : all = steps ++ [d]) :
    Session act s steps d.before ∧ (act d.command d.before).Ends d.events d.after d.value ∧ t = d.after := by
  cases h with
  | idle => simp at hd
  | step h he =>
      obtain ⟨rfl, hl⟩ := List.append_inj' hd rfl
      cases hl
      exact ⟨h, he, rfl⟩

theorem split : {steps' : List (Step κ ι σ α)} → {t : σ} → Session act s (steps ++ steps') t →
    ∃ m, Session act s steps m ∧ Session act m steps' t := by
  intro steps'
  induction steps' using List.reverseRecOn with
  | nil =>
      intro t h
      rw [List.append_nil] at h
      exact ⟨t, h, .idle⟩
  | append_singleton steps' d ih =>
      intro t h
      obtain ⟨h', he, rfl⟩ := h.last (List.append_assoc ..).symm
      obtain ⟨m, h₁, h₂⟩ := ih h'
      exact ⟨m, h₁, .step h₂ he⟩

theorem eq_of_nil (h : Session act s [] t) : t = s := by
  generalize hn : [] = steps at h
  cases h with
  | idle => rfl
  | step => simp at hn

theorem head (h : Session act s (d :: steps) t) :
    d.before = s ∧ (act d.command d.before).Ends d.events d.after d.value ∧ Session act d.after steps t := by
  replace h : Session act s ([] ++ [d] ++ steps) t := h
  obtain ⟨m, h₁, h₂⟩ := h.split
  obtain ⟨hb, he, rfl⟩ := h₁.last rfl
  exact ⟨hb.eq_of_nil, he, h₂⟩

/-- What every operation preserves holds after a session. -/
theorem preserves {p : σ → Prop} (h : Session act s steps t) (hs : p s)
    (hp : ∀ c s es t v, (act c s).Ends es t v → p s → p t) : p t := by
  induction h with
  | idle => exact hs
  | step _ he ih => exact hp _ _ _ _ _ he ih

end Session

/-! ### What has held since a step -/

/-- A step with `p` has been made, and each one after it has been one with `q`. -/
def Since (p q : Step κ ι σ α → Prop) (steps : List (Step κ ι σ α)) : Prop :=
  ∃ before d after, steps = before ++ d :: after ∧ p d ∧ ∀ e ∈ after, q e

section Since
variable {act : κ → σ → Operation ι σ α} {s t : σ} {steps : List (Step κ ι σ α)} {d : Step κ ι σ α}
  {p q : Step κ ι σ α → Prop} {P : σ → Prop}

theorem not_since_nil : ¬ Since p q [] := by
  rintro ⟨before, d, after, h, -⟩
  simp at h

theorem since_concat : Since p q (steps ++ [d]) ↔ p d ∨ Since p q steps ∧ q d := by
  constructor
  · rintro ⟨before, e, after, h, hp, hq⟩
    rcases after.eq_nil_or_concat with rfl | ⟨after, d', rfl⟩
    · obtain ⟨rfl, hd⟩ := List.append_inj' h rfl
      cases hd
      exact .inl hp
    · rw [List.concat_eq_append, ← List.cons_append, ← List.append_assoc] at h
      obtain ⟨rfl, hd⟩ := List.append_inj' h rfl
      cases hd
      exact .inr ⟨⟨before, e, after, rfl, hp, fun e he => hq e (by simp [he])⟩, hq d (by simp)⟩
  · rintro (hp | ⟨⟨before, e, after, rfl, hp, hq⟩, hd⟩)
    · exact ⟨steps, d, [], rfl, hp, fun _ h => absurd h List.not_mem_nil⟩
    · refine ⟨before, e, after ++ [d], by simp, hp, fun x hx => ?_⟩
      rcases List.mem_append.mp hx with hx | hx
      · exact hq x hx
      · cases List.mem_singleton.mp hx
        exact hd

/-- What does not hold at first has come with a step, and has not been undone since. -/
theorem Session.since (h : Session act s steps t) (hs : ¬ P s)
    (hd : ∀ steps d, Session act s (steps ++ [d]) d.after → P d.after → p d ∨ P d.before ∧ q d) (ht : P t) :
    Since p q steps := by
  induction h with
  | idle => exact absurd ht hs
  | step h he ih => exact since_concat.mpr ((hd _ ⟨_, _, _, _, _⟩ (.step h he) ht).imp_right fun hb => ⟨ih hb.1, hb.2⟩)

/-- What comes with a step and is kept by the others holds after them. -/
theorem Session.of_since (h : Session act s steps t)
    (hd : ∀ steps d, Session act s (steps ++ [d]) d.after → p d ∨ P d.before ∧ q d → P d.after)
    (hs : Since p q steps) : P t := by
  induction h with
  | idle => exact absurd hs not_since_nil
  | step h he ih => exact hd _ ⟨_, _, _, _, _⟩ (.step h he) ((since_concat.mp hs).imp_right fun hb => ⟨ih hb.1, hb.2⟩)

theorem Session.iff_since (h : Session act s steps t) (hs : ¬ P s)
    (hd : ∀ steps d, Session act s (steps ++ [d]) d.after → (P d.after ↔ p d ∨ P d.before ∧ q d)) :
    P t ↔ Since p q steps :=
  ⟨h.since hs fun steps d h => (hd steps d h).mp, h.of_since fun steps d h => (hd steps d h).mpr⟩

end Since

/-- Carries out commands with the fleets that `run` asks. -/
def play (act : κ → σ → Operation ι σ α) (reply : Fleets φ ι) : φ → σ → List κ → List (Step κ ι σ α) × σ
  | _, s, [] => ([], s)
  | fleets, s, c :: cs =>
      let r := (act c s).run reply fleets
      let (steps, t) := play act reply r.fleets r.state cs
      (⟨c, s, r.events.filter (!·.isLate), r.state, r.value⟩ :: steps, t)

theorem session_play (act : κ → σ → Operation ι σ α) (reply : Fleets φ ι) :
    (fleets : φ) → (s : σ) → (cs : List κ) →
      Session act s (play act reply fleets s cs).1 (play act reply fleets s cs).2
  | _, _, [] => .idle
  | fleets, s, c :: cs =>
      (Session.step .idle (.of_run reply fleets (act c s))).trans (session_play act reply _ _ cs)

theorem command_mem_of_mem_play {act : κ → σ → Operation ι σ α} {reply : Fleets φ ι} {d : Step κ ι σ α} :
    {fleets : φ} → {s : σ} → {cs : List κ} → d ∈ (play act reply fleets s cs).1 → d.command ∈ cs
  | _, _, [], h => absurd h List.not_mem_nil
  | _, _, _ :: _, h => by
      rcases List.mem_cons.mp h with rfl | h
      · exact List.mem_cons_self
      · exact List.mem_cons_of_mem _ (command_mem_of_mem_play h)

end NodeGroups.Operation
