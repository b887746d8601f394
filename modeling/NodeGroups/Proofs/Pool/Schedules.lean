import NodeGroups.Proofs.Pool.Callers
import NodeGroups.Proofs.Pool.Progress
import NodeGroups.Proofs.Pool.Serial
import NodeGroups.Proofs.Provider.Removals

/-!
# Schedules of a pool

However the tasks of a pool are scheduled, they do what their jobs do one at a time, and whether callers wait for them makes
no difference. Main statement: `serialized`. A call through a handle is the schedule of one task.
-/

namespace NodeGroups.Pool
open Operation

variable {φ : Type} {reply : Fleets φ Nat} {q q' : Pool φ} {i : Nat} {t : Task} {m : Move} {moves moves' : List Move}

theorem Serial.perm {s : Handle.Turns φ} {order : List Nat} (h : Serial reply s order q)
    (ho : ∀ t ∈ q.tasks, t.stage.isEnded = true) : order.Perm (List.range q.tasks.length) := by
  refine (List.perm_ext_iff_of_nodup h.nodup List.nodup_range).mpr fun i => ?_
  rw [List.mem_range]
  constructor
  · intro hi
    obtain ⟨t, ht⟩ := h.exists_getElem? hi
    exact (List.getElem?_eq_some_iff.mp ht).1
  · intro hi
    have ht := List.getElem?_eq_getElem hi
    have hw := ho _ (List.getElem_mem hi)
    by_contra hn
    rw [← h.isWaiting_iff i _ ht] at hn
    rw [Task.Stage.eq_waiting hn] at hw
    cases hw

theorem isFree_of_ended (ho : ∀ t ∈ q.tasks, t.stage.isEnded = true) : q.isFree = true := by
  rw [isFree, List.all_eq_true]
  intro t ht
  have hn := ho t ht
  cases hs : t.stage <;> simp [hs, Task.Stage.isEnded, Task.Stage.isRunning] at hn ⊢

theorem ending?_silent (ho : ∀ t ∈ q.tasks, t.stage.isEnded = true) (i : Nat) :
    q.silent.tasks[i]?.bind (q.silent.ending? reply) = q.tasks[i]?.bind Task.ending? := by
  rw [silent, List.getElem?_map]
  cases ht : q.tasks[i]? with
  | none => rfl
  | some t =>
      have hn := ho t (List.mem_of_getElem? ht)
      cases hs : t.stage <;>
        simp [hs, Task.Stage.isEnded, ending?, Task.ending?, Task.Stage.value?, Task.Stage.result?] at hn ⊢

/-- Once all tasks are over, each has got the lock once, and the handle, the fleets, the events and what came of the tasks
are those of their jobs done one at a time in the order in which they got the lock. -/
theorem turns_of_moves? {h : Handle} {fleets : φ} (hq : (start h fleets).moves? reply moves = some q)
    (ho : ∀ t ∈ q.tasks, t.stage.isEnded = true) :
    (locked moves).Perm (List.range q.tasks.length) ∧
      let s := h.performAll reply fleets (jobs moves)
      q.handle = s.handle ∧ q.fleets = s.fleets ∧ q.events = s.events ∧
        (locked moves).map (fun i => q.tasks[i]?.bind Task.ending?) = s.endings.map some := by
  -- the order can be read off the same schedule without the moves that only tell callers something
  have hsilent : (start h fleets).moves? reply (moves.filter (!·.isAnswer)) = some q.silent := moves?_silent hq
  have hs := serial_of_moves? hsilent (by simp)
  rw [jobs, locked_filter, submitted_filter, ← jobs] at hs
  have hso : ∀ t ∈ q.silent.tasks, t.stage.isEnded = true := by
    intro t ht
    obtain ⟨u, hu, rfl⟩ := List.mem_map.mp ht
    exact ho u hu
  obtain ⟨hh, hf, he⟩ := hs.settles.eq_of_free (isFree_of_ended hso)
  refine ⟨?_, hh.symm, hf.symm, he.symm, ?_⟩
  · have hp := hs.perm hso
    rwa [silent, List.length_map] at hp
  · rw [← hs.endings]
    exact List.map_congr_left fun i _ => (ending?_silent ho i).symm

/-- However the callers come and give up and the tasks get the lock and go on, a pool does what it would do if no caller
were told anything. Who has given up is told so, and everyone else is told what came of the caller's own job. All tasks can
always come to their end and all callers be told something. Once all are over, each has got the lock once; the handle, the
fleets and the events are those of the jobs done one at a time in the order in which they got the lock, and so is what came
of each. -/
theorem serialized {h : Handle} {fleets : φ} (hq : (start h fleets).moves? reply moves = some q) :
    q.tasks.map (·.job) = submitted moves ∧
      (start h fleets).moves? reply (moves.filter (!·.isAnswer)) = some q.silent ∧
      (∀ i, .timeOut i ∈ moves → ∃ t, q.tasks[i]? = some t ∧ t.answer = some (.error (.timeout h.timeout))) ∧
      (∀ (i : Nat) (t : Task) a, q.tasks[i]? = some t → t.answer = some a → .timeOut i ∉ moves →
        ∃ v, t.stage = .ended v ∧ a = v.getD (.error .brokenOff)) ∧
      (∃ moves' q', q.moves? reply moves' = some q' ∧ (∀ m ∈ moves', m.isOfCaller = false) ∧
        ∀ t ∈ q'.tasks, t.isSettled = true) ∧
      ((∀ t ∈ q.tasks, t.stage.isEnded = true) →
        (locked moves).Perm (List.range q.tasks.length) ∧
          let s := h.performAll reply fleets (jobs moves)
          q.handle = s.handle ∧ q.fleets = s.fleets ∧ q.events = s.events ∧
            (locked moves).map (fun i => q.tasks[i]?.bind Task.ending?) = s.endings.map some) :=
  have ht := told_of_moves? hq
  ⟨map_job_of_moves? hq, moves?_silent hq, ht.of_timeOut, ht.of_answer, exists_settled reply q, turns_of_moves? hq⟩

/-- The first caller asks for a refresh and the second for a removal. The second task gets the lock first, and breaks off
after its caller has given up. The third caller gives up before its task gets the lock. -/
def rush : List Move :=
  [.submit .refresh, .submit (.request (.deleteNodes "juju-k-app" ["n0"])), .acquire 1, .submit (.request .groups),
    .timeOut 1, .proceed 1, .timeOut 2, .acquire 0, .proceed 0, .proceed 0, .proceed 0, .acquire 2, .proceed 2, .answer 0]

def beforeRush : Pool (List Fleet.Script) :=
  start { provider := Provider.twoGroups, timeout := .ofSeconds 5 }
    [{ status := [{ outcome := some (.ok Group.twoUnits) }] },
      { status := [{ outcome := some (.ok Group.twoUnits) }], destroyUnits := [{ outcome := none }] }]

theorem serialized_rush :
    ∃ q, beforeRush.moves? Fleet.Script.row rush = some q ∧ (locked rush).Perm (List.range 3) ∧
      q.events = (beforeRush.handle.performAll Fleet.Script.row beforeRush.fleets (jobs rush)).events ∧
      (∃ t, q.tasks[2]? = some t ∧ t.answer = some (.error (.timeout (.ofSeconds 5)))) ∧
      ∃ t v, q.tasks[0]? = some t ∧ t.stage = .ended v ∧ t.answer = some (v.getD (.error .brokenOff)) := by
  obtain ⟨q, hq, ho, hl, ha⟩ : ∃ q, beforeRush.moves? Fleet.Script.row rush = some q ∧
      (∀ t ∈ q.tasks, t.stage.isEnded = true) ∧ q.tasks.length = 3 ∧
      ∃ t, q.tasks[0]? = some t ∧ t.answer.isSome = true :=
    ⟨_, rfl, List.all_eq_true.mp rfl, rfl, _, rfl, rfl⟩
  obtain ⟨-, -, ht, ha', -, hs⟩ := serialized hq
  obtain ⟨hp, -, -, he, -⟩ := hs ho
  obtain ⟨t, ht0, hta⟩ := ha
  obtain ⟨a, hta⟩ := Option.isSome_iff_exists.mp hta
  obtain ⟨v, hv, rfl⟩ := ha' 0 t a ht0 hta (by decide)
  exact ⟨q, hq, hl ▸ hp, he, ht 2 (by decide), t, v, ht0, hv, hta⟩

/-! ## One call -/

theorem filter_parts (es : List (Event Nat)) :
    (es.takeWhile (!·.isLate) ++ (es.dropWhile (!·.isLate)).tail).filter (!·.isLate) = es.filter (!·.isLate) := by
  induction es with
  | nil => rfl
  | cons e es ih => cases he : e.isLate <;> simp_all

theorem call_eq_next (h : Handle) (reply : Fleets φ Nat) (fleets : φ) (j : Job) :
    let c := h.call reply fleets j.op
    let s := h.performAll reply fleets [j]
    c.handle = s.handle ∧ c.fleets = s.fleets ∧ (c.events ++ c.afterwards).filter (!·.isLate) = s.events := by
  have hr : h.recovery.filter (!·.isLate) = h.recovery := by
    unfold Handle.recovery
    split <;> rfl
  simp only [Handle.call_eq, Handle.performAll, List.foldl_cons, List.foldl_nil, Handle.Turns.next_eq]
  split
  · refine ⟨rfl, rfl, ?_⟩
    rw [List.append_assoc, List.filter_append, filter_parts, hr]
    rfl
  · refine ⟨rfl, rfl, ?_⟩
    rw [List.append_nil, List.filter_append, hr]
    rfl

theorem turns_of_single {h : Handle} {fleets : φ} {j : Job} (hq : (start h fleets).moves? reply moves = some q)
    (hj : submitted moves = [j]) (ho : ∀ t ∈ q.tasks, t.stage.isEnded = true) :
    let s := h.performAll reply fleets [j]
    (∃ answer, q.tasks = [⟨j, .ended ((j.op h.provider).run reply fleets).value, answer⟩]) ∧
      q.handle = s.handle ∧ q.fleets = s.fleets ∧ q.events = s.events := by
  obtain ⟨⟨job, stage, answer⟩, hqt, hjob⟩ := List.map_eq_singleton_iff.mp ((map_job_of_moves? hq).trans hj)
  obtain rfl : j = job := hjob.symm
  obtain ⟨hperm, hh, hf, he, hend⟩ := turns_of_moves? hq ho
  rw [hqt] at hperm ho
  have hl := List.perm_singleton.mp hperm
  rw [hl, hqt] at hend
  rw [jobs, hl, hj] at hh hf he hend
  refine ⟨⟨answer, ?_⟩, hh, hf, he⟩
  have hs := List.forall_mem_singleton.mp ho
  cases stage with
  | waiting | running => cases hs
  | ended v =>
      obtain rfl : v = ((j.op h.provider).run reply fleets).value := by
        simpa [Task.ending?, Task.Stage.result?, Handle.performAll, Handle.Turns.next_eq] using hend
      exact hqt

/-- A call through a handle is a schedule of one task, whose caller gives up if the outcome is to come late. -/
theorem exists_moves_call (h : Handle) (reply : Fleets φ Nat) (fleets : φ) (j : Job) :
    let c := h.call reply fleets j.op
    ∃ moves q, (start h fleets).moves? reply (.submit j :: moves) = some q ∧ q.handle = c.handle ∧ q.fleets = c.fleets ∧
      q.events = (c.events ++ c.afterwards).filter (!·.isLate) ∧
      q.tasks = [⟨j, .ended ((j.op h.provider).run reply fleets).value, some c.answer⟩] := by
  intro c
  let late := ((j.op h.provider).run reply fleets).events.any (·.isLate)
  obtain ⟨p, hp⟩ : ∃ p, (start h fleets).moves? reply (.submit j :: if late then [.timeOut 0] else []) = some p := by
    split <;> exact ⟨_, rfl⟩
  obtain ⟨moves, q, hq, hm, hs⟩ := exists_settled reply p
  have hall := moves?_trans hp hq
  have hsub : submitted (.submit j :: (if late then [.timeOut 0] else []) ++ moves) = [j] := by
    have hn : submitted moves = [] := List.filterMap_eq_nil_iff.mpr fun m hmem => by
      have hc := hm m hmem
      cases m <;> first | rfl | cases hc
    rw [submitted, List.filterMap_append, ← submitted, ← submitted, hn]
    split <;> rfl
  simp only [Task.isSettled, Bool.and_eq_true] at hs
  obtain ⟨⟨answer, hqt⟩, hh, hf, he⟩ := turns_of_single hall hsub fun t ht => (hs t ht).1
  obtain ⟨hch, hcf, hce⟩ := call_eq_next h reply fleets j
  refine ⟨_, q, hall, hh.trans hch.symm, hf.trans hcf.symm, he.trans hce.symm, ?_⟩
  obtain ⟨a, ha⟩ : ∃ a, answer = some a := Option.isSome_iff_exists.mp (hs _ (hqt ▸ List.mem_singleton_self _)).2
  subst ha
  have ht := told_of_moves? hall
  have ht0 : q.tasks[0]? = some _ := congrArg (·[0]?) hqt
  rw [hqt]
  suffices a = c.answer by rw [this]
  simp only [c, Handle.call_eq]
  split
  · next hlate =>
    obtain ⟨t, ht', hta⟩ := ht.of_timeOut 0 (by simp [late, hlate])
    rw [ht0] at ht'
    cases ht'
    exact Option.some.inj hta
  · next hlate =>
    have hn : .timeOut 0 ∉ moves := by
      intro hmem
      cases hm _ hmem
    obtain ⟨v, hv, hva⟩ := ht.of_answer 0 _ a ht0 rfl (by simpa [late, hlate] using hn)
    cases hv
    exact hva

end NodeGroups.Pool
