import NodeGroups.Proofs.Replies
import NodeGroups.Proofs.Table

/-!
# Fleets without teardown

Fleets may go on listing a unit after they have been asked to remove it. `clearing` turns any fleets into ones that do not,
and are the same otherwise.
-/

namespace NodeGroups.Fleet
open Operation

variable {ι φ : Type} {app id : String} {ids : List String} {s : Snapshot} {es es' : List (Event ι)}

/-- The snapshot with some units of an application left out. -/
def Snapshot.without (s : Snapshot) (app : String) (ids : List String) : Snapshot :=
  { s with applications := s.applications.map fun a units =>
      if a = app then units.filter fun id _ => !ids.contains id else units }

theorem Snapshot.get?_unitsOf_without :
    ((s.without app ids).unitsOf app).get? id = if id ∈ ids then none else (s.unitsOf app).get? id := by
  simp only [unitsOf, unitsOf?, without, Table.get?_map]
  cases s.applications.get? app with
  | none => simp [Table.get?, Table.empty, EmptyCollection.emptyCollection]
  | some units =>
      simp only [Option.map_some, Option.getD_some, if_true, Table.get?_filter]
      split
      · next h => simp [h]
      · next h => cases units.get? id <;> simp [h, Option.filter]

theorem Snapshot.lists_without :
    (s.without app ids).lists app id = true ↔ id ∉ ids ∧ s.lists app id = true := by
  simp only [lists, Table.contains, get?_unitsOf_without]
  split <;> simp [*]

def Outcome.without (app : String) (ids : List String) : (r : Request) → Outcome r → Outcome r
  | .status _, .ok s => .ok (s.without app ids)
  | .status _, .error e => .error e
  | .addUnits .., o => o
  | .destroyUnits .., o => o

/-- Fleets that reply as others do, but leave units of an application out of a snapshot once they have been asked to remove
them. -/
def clearing (app : String) (reply : Fleets φ ι) : Fleets (φ × List String) ι := fun (fleets, gone) i r =>
  let (fleets, answer) := reply fleets i r
  ((fleets, gone ++ Event.asked (.call i r none)),
    { late := answer.late, outcome := answer.outcome.map (Outcome.without app gone r) })

/-! ## Their replies -/

def clearedEvent (app : String) (gone : List String) : Event ι → Event ι
  | .call i r o => .call i r (o.map (Outcome.without app gone r))
  | .warn n => .warn n
  | .late => .late

/-- The events if those fleets reply instead, and the units `gone` have been asked to be removed before. -/
def cleared (app : String) (gone : List String) : List (Event ι) → List (Event ι)
  | [] => []
  | e :: es => clearedEvent app gone e :: cleared app (gone ++ e.asked) es

theorem replies_clearing {reply : Fleets φ ι} {fleets fleets' : φ} {gone : List String}
    (h : Replies reply fleets es fleets') :
    Replies (clearing app reply) (fleets, gone) (cleared app gone es) (fleets', gone ++ asked es) := by
  induction h generalizing gone with
  | nil =>
      rw [asked, List.flatMap_nil, List.append_nil]
      exact .nil
  | @warn _ _ n es _ ih =>
      have hn : asked (.warn n :: es) = asked es := rfl
      rw [hn]
      refine .warn ?_
      simpa [Event.asked] using ih
  | @call fleets _ i r o es ho _ ih =>
      have ho' : Event.asked (.call i r o) = Event.asked (.call i r none) := by cases r <;> rfl
      rw [asked, List.flatMap_cons, ← List.append_assoc, ← asked, cleared, ho']
      exact .call (congrArg (Option.map _) ho) ih

theorem cleared_append {gone : List String} :
    cleared app gone (es ++ es') = cleared app gone es ++ cleared app (gone ++ asked es) es' := by
  induction es generalizing gone with
  | nil => simp [cleared, asked]
  | cons e es ih =>
      have ha : gone ++ asked (e :: es) = (gone ++ e.asked) ++ asked es := (List.append_assoc ..).symm
      rw [ha]
      exact congrArg (clearedEvent app gone e :: ·) ih

@[simp] theorem cleared_map_warn {gone : List String} (ns : List Notice) :
    cleared app gone (ns.map (Event.warn (ι := ι))) = ns.map .warn := by
  induction ns generalizing gone with
  | nil => rfl
  | cons n ns ih => exact congrArg (Event.warn n :: ·) ih

theorem requestTo?_cleared [DecidableEq ι] {gone : List String} (i : ι) :
    (cleared app gone es).filterMap (Event.requestTo? i) = es.filterMap (Event.requestTo? i) := by
  induction es generalizing gone with
  | nil => rfl
  | cons e es ih =>
      have he : (clearedEvent app gone e).requestTo? i = e.requestTo? i := by cases e <;> rfl
      rw [cleared, List.filterMap_cons, List.filterMap_cons, he, ih]

theorem notice?_cleared {gone : List String} :
    (cleared app gone es).filterMap Event.notice? = es.filterMap Event.notice? := by
  induction es generalizing gone with
  | nil => rfl
  | cons e es ih =>
      have he : (clearedEvent app gone e).notice? = e.notice? := by cases e <;> rfl
      rw [cleared, List.filterMap_cons, List.filterMap_cons, he, ih]

end NodeGroups.Fleet
