import Mathlib.Data.List.Nodup
import NodeGroups.Proofs.Pool.Moves

/-!
# One task at a time

As long as callers are told nothing, a pool does what has been done by the jobs of its tasks one after another, in the order
in which the tasks have got the lock. Main statement: `serial_of_moves?`.
-/

namespace NodeGroups
open Operation

/-! ## Turns -/

namespace Handle

variable {φ : Type} {reply : Fleets φ Nat}

theorem Turns.next_eq (s : Turns φ) (j : Job) :
    s.next reply j =
      let r := (j.op s.handle.provider).run reply s.fleets
      { handle := s.handle.after r, fleets := r.fleets, endings := s.endings ++ [⟨j, r.value⟩]
        events := s.events ++ s.handle.recovery ++ r.events.filter (!·.isLate) } := by
  cases hp : s.handle.poisoned <;> simp [Turns.next, perform, recovery, after, hp, Event.isLate]

theorem performAll_concat (h : Handle) (fleets : φ) (jobs : List Job) (j : Job) :
    h.performAll reply fleets (jobs ++ [j]) = (h.performAll reply fleets jobs).next reply j := by
  rw [performAll, List.foldl_append]
  rfl

end Handle

/-! ## The task that holds the lock -/

/-- What will have come of an operation that has got the lock, if no other comes between. -/
def Task.Stage.value? {φ α : Type} (reply : Fleets φ Nat) (fleets : φ) : Stage α → Option (Option (Except Provider.Error α))
  | .waiting => none
  | .running rest => some (rest.run reply fleets).value
  | .ended v => some v

namespace Pool

variable {φ : Type} {reply : Fleets φ Nat} {q q' : Pool φ} {i : Nat} {t : Task} {m : Move} {moves moves' : List Move}

/-- What will have become of the handle, the fleets and the events when no task holds the lock any more. -/
inductive Settles (reply : Fleets φ Nat) (q : Pool φ) : Handle → φ → List (Event Nat) → Prop
  | free : q.isFree = true → Settles reply q q.handle q.fleets q.events
  | held {i : Nat} {t : Task} {rest : Provider.Op t.job.Result} : q.tasks[i]? = some t → t.stage = .running rest →
      (∀ (k : Nat) (t' : Task), q.tasks[k]? = some t' → t'.stage.isRunning = true → k = i) →
      Settles reply q (q.handle.after (rest.run reply q.fleets)) (rest.run reply q.fleets).fleets
        (q.events ++ (rest.run reply q.fleets).events.filter (!·.isLate))

namespace Settles

variable {h : Handle} {f : φ} {es : List (Event Nat)}

theorem eq_of_free (hs : Settles reply q h f es) (hq : q.isFree = true) : h = q.handle ∧ f = q.fleets ∧ es = q.events := by
  cases hs with
  | free => exact ⟨rfl, rfl, rfl⟩
  | held ht hr =>
      have hn := isFree_iff.mp hq _ _ ht
      simp [Task.Stage.isRunning, hr] at hn

theorem eq_of_running (hs : Settles reply q h f es) (ht : q.tasks[i]? = some t) {rest : Provider.Op t.job.Result}
    (hr : t.stage = .running rest) :
    let r := rest.run reply q.fleets
    (h = q.handle.after r ∧ f = r.fleets ∧ es = q.events ++ r.events.filter (!·.isLate)) ∧
      ∀ (k : Nat) (t' : Task), q.tasks[k]? = some t' → t'.stage.isRunning = true → k = i := by
  cases hs with
  | free hq =>
      have hn := isFree_iff.mp hq _ _ ht
      simp [Task.Stage.isRunning, hr] at hn
  | held ht' hr' hu =>
      obtain rfl := hu _ _ ht (by simp [Task.Stage.isRunning, hr])
      obtain rfl := Option.some.inj (ht.symm.trans ht')
      obtain rfl := Task.Stage.running.inj (hr.symm.trans hr')
      exact ⟨⟨rfl, rfl, rfl⟩, hu⟩

theorem submit (hs : Settles reply q h f es) (job : Job) :
    Settles reply { q with tasks := q.tasks ++ [{ job }] } h f es := by
  cases hs with
  | free hq =>
      refine .free ?_
      simpa [isFree, Task.Stage.isRunning] using hq
  | held ht hr hu =>
      refine .held (List.getElem?_append_left (List.getElem?_eq_some_iff.mp ht).1 ▸ ht) hr fun k t' hk hr' => ?_
      rcases getElem?_submit hk with hk | ⟨-, rfl⟩
      · exact hu k t' hk hr'
      · cases hr'

end Settles

/-- What will have come of a task, once it has got the lock. -/
def ending? (reply : Fleets φ Nat) (q : Pool φ) (t : Task) : Option Job.Ending :=
  (t.stage.value? reply q.fleets).map fun v => ⟨t.job, v⟩

theorem ending?_of_not_running (ht : t.stage.isRunning = false) (p q : Pool φ) : p.ending? reply t = q.ending? reply t := by
  unfold ending?
  cases hs : t.stage with
  | waiting | ended => rfl
  | running => simp [hs, Task.Stage.isRunning] at ht

/-- The pool does what has been done by these turns, in the order given. -/
structure Serial (reply : Fleets φ Nat) (s : Handle.Turns φ) (order : List Nat) (q : Pool φ) : Prop where
  settles : Settles reply q s.handle s.fleets s.events
  endings : order.map (fun i => q.tasks[i]?.bind (q.ending? reply)) = s.endings.map some
  nodup : order.Nodup
  isWaiting_iff : ∀ (i : Nat) (t : Task), q.tasks[i]? = some t → (t.stage.isWaiting = true ↔ i ∉ order)

namespace Serial

variable {s : Handle.Turns φ} {order : List Nat}

theorem start (h : Handle) (fleets : φ) : Serial reply (h.performAll reply fleets []) [] (start h fleets) where
  settles := .free rfl
  endings := rfl
  nodup := .nil
  isWaiting_iff _ _ ht := nomatch ht

theorem exists_getElem? (h : Serial reply s order q) {i : Nat} (hi : i ∈ order) : ∃ t, q.tasks[i]? = some t := by
  have hm : q.tasks[i]?.bind (q.ending? reply) ∈ s.endings.map some := h.endings ▸ List.mem_map_of_mem hi
  obtain ⟨v, -, hv⟩ := List.mem_map.mp hm
  obtain ⟨t, ht, -⟩ := Option.bind_eq_some_iff.mp hv.symm
  exact ⟨t, ht⟩

theorem submit (h : Serial reply s order q) (job : Job) :
    Serial reply s order { q with tasks := q.tasks ++ [{ job }] } where
  settles := h.settles.submit job
  endings := by
    refine (List.map_congr_left fun i hi => ?_).trans h.endings
    obtain ⟨t, ht⟩ := h.exists_getElem? hi
    rw [List.getElem?_append_left (List.getElem?_eq_some_iff.mp ht).1]
    rfl
  nodup := h.nodup
  isWaiting_iff i t ht := by
    rcases getElem?_submit ht with ht | ⟨rfl, rfl⟩
    · exact h.isWaiting_iff i t ht
    · refine iff_of_true rfl fun hm => ?_
      obtain ⟨t, ht⟩ := h.exists_getElem? hm
      exact Nat.lt_irrefl _ (List.getElem?_eq_some_iff.mp ht).1

theorem acquire (h : Serial reply s order q) (ht : q.tasks[i]? = some t) (hw : t.stage = .waiting)
    (hq : q.isFree = true) :
    Serial reply (s.next reply t.job) (order ++ [i])
      { q.put i { t with stage := .running (t.job.op q.handle.provider) } with
        events := q.events ++ q.handle.recovery } := by
  obtain ⟨hh, hf, he⟩ := h.settles.eq_of_free hq
  have hi : i ∉ order := (h.isWaiting_iff i t ht).mp (by simp [Task.Stage.isWaiting, hw])
  let t' : Task := { t with stage := .running (t.job.op q.handle.provider) }
  have hget : ∀ k, (q.put i t').tasks[k]? = _ := getElem?_set ht t'
  have hti := (hget i).trans (if_pos rfl)
  rw [Handle.Turns.next_eq, hh, hf, he]
  refine ⟨.held (t := t') hti rfl fun k u hk hr => ?_, ?_, ?_, fun k u hk => ?_⟩
  · by_contra hne
    rw [hget k, if_neg hne] at hk
    rw [isFree_iff.mp hq k u hk] at hr
    cases hr
  · simp only [List.map_append, List.map_cons, List.map_nil]
    congr 1
    · rw [← h.endings]
      refine List.map_congr_left fun k hk => ?_
      rw [hget k, if_neg (ne_of_mem_of_not_mem hk hi)]
      rfl
    · rw [hti]
      rfl
  · exact List.concat_eq_append ▸ List.Nodup.concat hi h.nodup
  · rw [hget k] at hk
    split at hk
    · next hki =>
      cases hk
      simp [Task.Stage.isWaiting, hki, t']
    · next hki =>
      rw [h.isWaiting_iff k u hk]
      simp [hki]

/-- The task that holds the lock becomes another of which the same will come. -/
theorem replace (h : Serial reply s order q) (ht : q.tasks[i]? = some t) (hi : i ∈ order)
    (hu : ∀ (k : Nat) (u : Task), q.tasks[k]? = some u → u.stage.isRunning = true → k = i) {t' : Task}
    (hs : q'.tasks = q.tasks.set i t') (hw : t'.stage.isWaiting = false) (ho : q'.ending? reply t' = q.ending? reply t)
    (hq : Settles reply q' s.handle s.fleets s.events) : Serial reply s order q' where
  settles := hq
  endings := by
    refine (List.map_congr_left fun k hk => ?_).trans h.endings
    rw [hs, getElem?_set ht]
    split
    · next hki =>
      subst hki
      rw [ht]
      exact ho
    · next hki =>
      obtain ⟨u, hu'⟩ := h.exists_getElem? hk
      rw [hu']
      exact ending?_of_not_running (Bool.eq_false_iff.mpr fun hr => hki (hu k u hu' hr)) _ _
  nodup := h.nodup
  isWaiting_iff k u hk := by
    rw [hs, getElem?_set ht] at hk
    split at hk
    · next hki =>
      cases hk
      simp [hw, hki, hi]
    · exact h.isWaiting_iff k u hk

theorem proceed (h : Serial reply s order q) (ht : q.tasks[i]? = some t) {rest : Provider.Op t.job.Result}
    (hr : t.stage = .running rest) : Serial reply s order (q.advance reply i t rest) := by
  obtain ⟨⟨hh, hf, he⟩, hu⟩ := h.settles.eq_of_running ht hr
  have hi : i ∈ order := by
    by_contra hn
    have hw := (h.isWaiting_iff i t ht).mpr hn
    simp [Task.Stage.isWaiting, hr] at hw
  -- no other task comes to hold the lock
  have hu' : ∀ {t' : Task}, (q.advance reply i t rest).tasks = q.tasks.set i t' →
      ∀ (k : Nat) (u : Task), (q.advance reply i t rest).tasks[k]? = some u → u.stage.isRunning = true → k = i := by
    intro t' hs k u hk hru
    by_contra hne
    rw [hs, getElem?_set ht, if_neg hne] at hk
    exact hne (hu k u hk hru)
  rcases advance_cases reply q i t rest with ⟨hs, hh', hf', he'⟩ | ⟨rest', hs, hh', hst, hv, hf', he'⟩
  · refine h.replace ht hi hu hs rfl (by simp [ending?, Task.Stage.value?, hr]) ?_
    rw [hh, hf, he, ← hh', ← hf', ← he']
    refine .free (isFree_iff.mpr fun k u hk => Bool.eq_false_iff.mpr fun hru => ?_)
    obtain rfl := hu' hs k u hk hru
    rw [hs, getElem?_set ht, if_pos rfl] at hk
    cases hk
    cases hru
  · have hti : (q.advance reply i t rest).tasks[i]? = some { t with stage := .running rest' } := by
      rw [hs, getElem?_set ht, if_pos rfl]
    refine h.replace ht hi hu hs rfl (by simp [ending?, Task.Stage.value?, hr, hv]) ?_
    have hq : Settles reply (q.advance reply i t rest) _ _ _ :=
      .held (t := { t with stage := .running rest' }) hti rfl (hu' hs)
    rw [hf', he', Handle.after, hst, hv, hh'] at hq
    rwa [hh, hf, he]

end Serial

/-! ## Schedules -/

/-- The jobs of the tasks that have got the lock. -/
def jobs (moves : List Move) : List Job := (locked moves).filterMap ((submitted moves)[·]?)

theorem jobs_submit (hl : ∀ i ∈ locked moves, i < (submitted moves).length) (job : Job) :
    jobs (moves ++ [.submit job]) = jobs moves := by
  have hs : submitted (moves ++ [.submit job]) = submitted moves ++ [job] := List.filterMap_append
  have hm : locked (moves ++ [.submit job]) = locked moves := List.filterMap_append.trans (List.append_nil _)
  rw [jobs, hs, hm]
  exact List.filterMap_congr fun i hi => List.getElem?_append_left (hl i hi)

theorem jobs_acquire {job : Job} (hj : (submitted moves)[i]? = some job) :
    jobs (moves ++ [.acquire i]) = jobs moves ++ [job] := by
  have hs : submitted (moves ++ [.acquire i]) = submitted moves := List.filterMap_append.trans (List.append_nil _)
  have hm : locked (moves ++ [.acquire i]) = locked moves ++ [i] := List.filterMap_append
  rw [jobs, hs, hm, List.filterMap_append]
  simp [jobs, hj]

theorem jobs_proceed (moves : List Move) (i : Nat) : jobs (moves ++ [.proceed i]) = jobs moves := by
  simp [jobs, locked, submitted, List.filterMap_append]

/-- The turns of a pool in which callers are told nothing. -/
theorem serial_of_moves? {h : Handle} {fleets : φ} (hq : (start h fleets).moves? reply moves = some q)
    (hm : ∀ m ∈ moves, m.isAnswer = false) :
    Serial reply (h.performAll reply fleets (jobs moves)) (locked moves) q := by
  -- A task takes its whole turn when it gets the lock; `Settles` says what is still to come of it.
  induction moves using List.reverseRecOn generalizing q with
  | nil =>
      cases hq
      exact .start h fleets
  | append_singleton moves m ih =>
      obtain ⟨p, hp, ho⟩ := moves?_concat_eq_some_iff.mp hq
      rw [List.forall_mem_append, List.forall_mem_singleton] at hm
      have hs := ih hp hm.1
      have hj := map_job_of_moves? hp
      rw [locked, List.filterMap_append, ← locked, ← locked]
      cases ho with
      | submit =>
          rw [jobs_submit]
          · exact (List.append_nil (locked moves)).symm ▸ hs.submit _
          · intro i hi
            obtain ⟨t, ht⟩ := hs.exists_getElem? hi
            rw [← hj, List.length_map]
            exact (List.getElem?_eq_some_iff.mp ht).1
      | @acquire i t ht hw hf =>
          have hg : (submitted moves)[i]? = some t.job := by rw [← hj, List.getElem?_map, ht, Option.map_some]
          rw [jobs_acquire hg, Handle.performAll_concat]
          exact hs.acquire ht hw hf
      | proceed ht hr =>
          rw [jobs_proceed]
          exact (List.append_nil (locked moves)).symm ▸ hs.proceed ht hr
      | answer | timeOut => cases hm.2

end Pool
end NodeGroups
