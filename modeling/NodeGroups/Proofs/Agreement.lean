import NodeGroups.Proofs.Calls
import NodeGroups.Proofs.Replies

/-!
# Operations that look at statuses only

An operation may depend on how a call has failed, and on a snapshot, but not on what else is answered. Such an operation
comes to the same with fleets that stand in for others: they fail in the same calls, and give the same snapshots. Main
statement: `play_of_standsIn`.
-/

namespace NodeGroups.Operation
open Fleet (Request Snapshot)

variable {ι κ σ α φ ψ : Type} {op op' : Operation ι σ α}

/-- What there is to an outcome apart from what is answered to a request for more or fewer units. -/
def seen : (r : Request) → Fleet.Outcome r → Except Fleet.Error (Option Snapshot)
  | .status _, o => o.map some
  | .addUnits .., o => o.map fun _ => none
  | .destroyUnits .., o => o.map fun _ => none

/-- The operations make the same calls and come to the same end if they see the same in every outcome. They may differ in
their warnings. -/
inductive Agree : Operation ι σ α → Operation ι σ α → Prop
  | done {s a} : Agree (done s a) (done s a)
  | warnLeft {n op op'} : Agree op op' → Agree (warn n op) op'
  | warnRight {n op op'} : Agree op op' → Agree op (warn n op')
  | call {s i r k k'} : (∀ o o', seen r o' = seen r o → Agree (k o) (k' o')) → Agree (call s i r k) (call s i r k')

theorem Agree.warnAll (h : Agree op op') : (ns ns' : List Notice) → Agree (warnAll ns op) (warnAll ns' op')
  | [], [] => h
  | [], _ :: ns' => .warnRight (h.warnAll [] ns')
  | _ :: ns, ns' => .warnLeft (h.warnAll ns ns')

/-! ## Stand-ins -/

/-- Called one after another, the fleets reply in place of others, so that the same is to be seen as in these calls. -/
inductive StandsIn (reply : Fleets φ ι) : φ → List (Event ι) → φ → Prop
  | nil {fleets : φ} : StandsIn reply fleets [] fleets
  | call {fleets fleets' : φ} {i} {r : Request} {o o' es} : (reply fleets i r).2.outcome = some o' →
      seen r o' = seen r o → StandsIn reply (reply fleets i r).1 es fleets' →
      StandsIn reply fleets (.call i r (some o) :: es) fleets'

section Run
variable {reply : Fleets φ ι} {reply' : Fleets ψ ι} {fleets : φ} {fleets' rest : ψ} {es : List (Event ι)}

theorem StandsIn.eq_of_nil (h : StandsIn reply' fleets' ([] : List (Event ι)) rest) : fleets' = rest := by
  cases h
  rfl

theorem calls_call (i : ι) (r : Request) (o : Option (Fleet.Outcome r)) (late : Bool) (es : List (Event ι)) :
    calls ((.call i r o :: if late then [.late] else []) ++ es) = .call i r o :: calls es := by
  cases late <;> rfl

/-- Stand-ins make an operation come to what it has come to, and stand in for what is called later. -/
theorem Agree.run (h : Agree op op') : ∀ {fleets fleets'},
    StandsIn reply' fleets' (calls (op.run reply fleets).events ++ es) rest →
    (op'.run reply' fleets').state = (op.run reply fleets).state ∧
      (op'.run reply' fleets').value = (op.run reply fleets).value ∧
      StandsIn reply' (op'.run reply' fleets').fleets es rest := by
  induction h with
  | done => exact fun hs => ⟨rfl, rfl, hs⟩
  | warnLeft _ ih => exact fun hs => ih hs
  | warnRight _ ih => exact fun hs => ih hs
  | @call s i r k k' _ ih =>
      intro fleets fleets' hs
      simp only [Operation.run] at hs ⊢
      cases ho : (reply fleets i r).2.outcome with
      | none =>
          -- nothing stands in for a call that has broken off
          rw [ho] at hs
          cases hs
      | some o =>
          simp only [ho, Run.after, calls_call] at hs
          cases hs with
          | @call _ _ _ _ _ o' _ ho' hw hs =>
              rw [ho']
              exact ih o o' hw hs

end Run

/-! ## Sessions -/

/-- A step in place of another, with a command that may stand in place of the other's: both lead from the same state to the
same state with the same value. What happened in them may differ. -/
structure Step.Accords (may : Step κ ι σ α → κ → Prop) (d d' : Step κ ι σ α) : Prop where
  command : may d d'.command
  before : d'.before = d.before
  after : d'.after = d.after
  value : d'.value = d.value

/-- Stand-ins make the commands of a session come to what they have come to, and so do other commands in place of them that
make the same calls. -/
theorem play_of_standsIn {act : κ → σ → Operation ι σ α} {may : Step κ ι σ α → κ → Prop} {reply : Fleets φ ι}
    {reply' : Fleets ψ ι} {rest : ψ} {es : List (Event ι)} {cs cs' : List κ} {fleets : φ} {fleets' : ψ} {s : σ}
    (ha : ∀ d c, may d c → Agree (act d.command d.before) (act c d.before))
    (hm : List.Forall₂ may (play act reply fleets s cs).1 cs')
    (hs : StandsIn reply' fleets' (calls (eventsOf (play act reply fleets s cs).1) ++ es) rest) :
    List.Forall₂ (Step.Accords may) (play act reply fleets s cs).1 (play act reply' fleets' s cs').1 ∧
      StandsIn reply' (leave act reply' fleets' s cs') es rest := by
  induction cs generalizing fleets fleets' s cs' with
  | nil =>
      cases hm
      exact ⟨.nil, hs⟩
  | cons c cs ih =>
      have hp : (play act reply fleets s (c :: cs)).1 = _ :: (play act reply _ _ cs).1 := rfl
      rw [hp] at hm hs ⊢
      cases hm with
      | @cons _ c' _ cs' hc hm =>
          rw [eventsOf, List.flatMap_cons, ← eventsOf, calls_append, calls_filter_isLate, List.append_assoc] at hs
          obtain ⟨hst, hv, hs⟩ := (ha _ _ hc).run hs
          rw [← hst] at hm hs
          obtain ⟨ht, hl⟩ := ih hm hs
          refine ⟨.cons ⟨hc, rfl, hst, hv⟩ ?_, hl⟩
          rw [← hst]
          exact ht

end NodeGroups.Operation
