import NodeGroups.Proofs.Ending

/-!
# Calls among events

What has happened in an operation are calls and warnings. Here the calls are picked out, and told apart by what has become
of them.
-/

namespace NodeGroups.Operation
open Fleet (Request)

variable {ι κ σ α : Type} {e : Event ι} {es es' : List (Event ι)}

namespace Event

def isCall : Event ι → Bool
  | .call .. => true
  | _ => false

/-- The fleet has answered the call with an error. -/
def isFailure : Event ι → Bool
  | .call _ _ (some (.error _)) => true
  | _ => false

/-- The call has broken the operation off, or kept it so long that nobody waits any more. -/
def isDisturbance : Event ι → Bool
  | .call _ _ none | .late => true
  | _ => false

@[simp] theorem isCall_map (fleet : ι → κ) (e : Event ι) : (e.map fleet).isCall = e.isCall := by
  cases e <;> rfl

@[simp] theorem isFailure_map (fleet : ι → κ) (e : Event ι) : (e.map fleet).isFailure = e.isFailure := by
  cases e with
  | call _ _ o => rcases o with _ | _ | _ <;> rfl
  | warn | late => rfl

theorem isFailure_iff : e.isFailure = true ↔ ∃ i r err, e = .failed i r (some err) := by
  constructor
  · intro h
    cases e with
    | call i r o =>
        rcases o with _ | err | _
        · cases h
        · exact ⟨i, r, err, rfl⟩
        · cases h
    | warn | late => cases h
  · rintro ⟨i, r, err, rfl⟩
    rfl

end Event

def calls (es : List (Event ι)) : List (Event ι) := es.filter (·.isCall)

@[simp] theorem calls_append (es es' : List (Event ι)) : calls (es ++ es') = calls es ++ calls es' :=
  List.filter_append ..

@[simp] theorem calls_map (fleet : ι → κ) (es : List (Event ι)) :
    calls (es.map (Event.map fleet)) = (calls es).map (Event.map fleet) := by
  simp [calls, List.filter_map, Function.comp_def]

@[simp] theorem calls_map_warn (ns : List Notice) : calls (ns.map (Event.warn (ι := ι))) = [] := by
  simp [calls, Event.isCall]

@[simp] theorem calls_filter_isLate (es : List (Event ι)) : calls (es.filter (!·.isLate)) = calls es := by
  rw [calls, List.filter_filter, calls]
  congr
  funext e
  cases e <;> rfl

/-- Only a call can fail. -/
theorem exists_isFailure_calls : (∃ e ∈ calls es, e.isFailure = true) ↔ ∃ e ∈ es, e.isFailure = true := by
  constructor
  · rintro ⟨e, he, hf⟩
    exact ⟨e, (List.mem_filter.mp he).1, hf⟩
  · rintro ⟨e, he, hf⟩
    refine ⟨e, List.mem_filter.mpr ⟨he, ?_⟩, hf⟩
    obtain ⟨_, _, _, rfl⟩ := Event.isFailure_iff.mp hf
    rfl

/-! ## Requests -/

/-- Every request that the operation can make is one of these. -/
def Requests (p : Request → Prop) : Operation ι σ α → Prop
  | done _ _ => True
  | warn _ rest => rest.Requests p
  | call _ _ r k => p r ∧ ∀ o, (k o).Requests p

theorem Requests.of_done {p : Request → Prop} (s : σ) (a : α) : (done s a : Operation ι σ α).Requests p := trivial

theorem Requests.warnAll {p : Request → Prop} {op : Operation ι σ α} (h : op.Requests p) :
    (ns : List Notice) → (warnAll ns op).Requests p
  | [] => h
  | _ :: ns => h.warnAll ns

theorem Requests.of_ends {p : Request → Prop} {i : ι} {r : Request} {o : Option (Fleet.Outcome r)} {t : σ}
    {v : Option α} :
    {op : Operation ι σ α} → {es : List (Event ι)} → op.Requests p → op.Ends es t v → .call i r o ∈ es → p r
  | done _ _, _, _, he, hc => by
      rw [(ends_done.mp he).1] at hc
      cases hc
  | warn _ rest, _, h, he, hc => by
      replace h : rest.Requests p := h
      obtain ⟨_, rfl, hr⟩ := ends_warn.mp he
      rcases List.mem_cons.mp hc with hc | hc
      · cases hc
      · exact of_ends h hr hc
  | call _ _ _ _, _, h, he, hc => by
      rcases ends_call.mp he with ⟨rfl, -, -⟩ | ⟨o', _, rfl, hk⟩
      · obtain ⟨⟩ := List.mem_singleton.mp hc
        exact h.1
      · rcases List.mem_cons.mp hc with hc | hc
        · cases hc
          exact h.1
        · exact of_ends (h.2 o') hk hc

end NodeGroups.Operation
