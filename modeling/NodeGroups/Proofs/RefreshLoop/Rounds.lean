import NodeGroups.Proofs.Pool.Schedules
import NodeGroups.Proofs.RefreshLoop.Moves

/-!
# A loop on its own

As long as nobody else comes with a job, the refreshes of the loop are rounds, even those whose answers it has not waited
for. Main statement: `rounds_of_moves?`.
-/

namespace NodeGroups.RefreshLoop
open Operation

variable {φ : Type} {reply : Fleets φ Nat} {l : RefreshLoop φ} {moves : List Move}

/-- Someone else comes with a job. -/
def Move.isSubmission : Move → Bool
  | pool (.submit _) => true
  | _ => false

/-- The pool has come to be what it is by moves in which the loop alone has come with jobs. -/
def Alone (reply : Fleets φ Nat) (h : Handle) (fleets : φ) (l : RefreshLoop φ) : Prop :=
  ∃ ms, (Pool.start h fleets).moves? reply ms = some l.pool ∧ Pool.submitted ms = .replicate l.started.length .refresh

theorem Alone.step {h : Handle} {fleets : φ} {l' : RefreshLoop φ} {m : Move} (ha : Alone reply h fleets l)
    (hm : m.isSubmission = false) (hs : Steps reply l m l') : Alone reply h fleets l' := by
  obtain ⟨ms, hms, hsub⟩ := ha
  cases hs with
  | pass | send | abandon => exact ⟨ms, hms, hsub⟩
  | @pool m q ho =>
      refine ⟨ms ++ [m], Pool.moves?_concat_eq_some_iff.mpr ⟨_, hms, ho⟩, ?_⟩
      rw [Pool.submitted, List.filterMap_append, ← Pool.submitted, hsub]
      cases m with
      | submit => cases hm
      | acquire | proceed | answer | timeOut => exact List.append_nil _
  | poll hp =>
      cases hp with
      | await | stop | sleep => exact ⟨ms, hms, hsub⟩
      | refresh =>
          refine ⟨ms ++ [.submit .refresh], Pool.moves?_concat_eq_some_iff.mpr ⟨_, hms, .submit⟩, ?_⟩
          rw [Pool.submitted, List.filterMap_append, ← Pool.submitted, hsub]
          simp [RefreshLoop.refresh, List.replicate_succ']

theorem jobs_eq_replicate {n : Nat} {ms : List Pool.Move} (hl : (Pool.locked ms).Perm (List.range n))
    (hs : Pool.submitted ms = .replicate n .refresh) : Pool.jobs ms = .replicate n .refresh := by
  have hget : ∀ i ∈ Pool.locked ms, (Pool.submitted ms)[i]? = some .refresh := by
    intro i hi
    rw [hs, List.getElem?_replicate, if_pos (List.mem_range.mp (hl.mem_iff.mp hi))]
  rw [Pool.jobs, List.filterMap_congr hget, List.filterMap_eq_map', List.map_const', hl.length_eq, List.length_range]

theorem next_eq_next {r : Rounds φ} {s : Handle.Turns φ} (hh : r.handle = s.handle) (hf : r.fleets = s.fleets) :
    (r.next reply).handle = (s.next reply .refresh).handle ∧ (r.next reply).fleets = (s.next reply .refresh).fleets := by
  obtain ⟨hch, hcf, -⟩ := Pool.call_eq_next r.handle reply r.fleets .refresh
  simp only [Handle.performAll, List.foldl_cons, List.foldl_nil, Handle.Turns.next_eq] at hch hcf
  rw [Handle.Turns.next_eq, ← hh, ← hf]
  exact ⟨hch, hcf⟩

theorem rounds_eq_performAll (reply : Fleets φ Nat) (h : Handle) (fleets : φ) (n : Nat) :
    let r := rounds reply h fleets n
    let s := h.performAll reply fleets (.replicate n .refresh)
    r.handle = s.handle ∧ r.fleets = s.fleets := by
  induction n with
  | zero => exact ⟨rfl, rfl⟩
  | succ n ih =>
      rw [List.replicate_succ', Handle.performAll_concat]
      exact next_eq_next ih.1 ih.2

theorem rounds_of_moves? {interval : Duration} {h : Handle} {fleets : φ} (hi : interval.isZero = false)
    (hl : (start interval h fleets).moves? reply moves = some l) (hm : ∀ m ∈ moves, m.isSubmission = false)
    (ho : ∀ t ∈ l.pool.tasks, t.stage.isEnded = true) :
    let r := rounds reply h fleets l.started.length
    l.pool.handle = r.handle ∧ l.pool.fleets = r.fleets := by
  obtain ⟨ms, hms, hsub⟩ : Alone reply h fleets l :=
    moves?_induction hi (fun hmem ha hs => ha.step (hm _ hmem) hs) ⟨[], rfl, rfl⟩ hl
  obtain ⟨hp, hh, hf, -⟩ := Pool.turns_of_moves? hms ho
  have hlen : l.pool.tasks.length = l.started.length := by
    rw [← List.length_map, Pool.map_job_of_moves? hms, hsub, List.length_replicate]
  rw [jobs_eq_replicate (hlen ▸ hp) hsub] at hh hf
  obtain ⟨hrh, hrf⟩ := rounds_eq_performAll reply h fleets l.started.length
  exact ⟨hh.trans hrh.symm, hf.trans hrf.symm⟩

end NodeGroups.RefreshLoop
