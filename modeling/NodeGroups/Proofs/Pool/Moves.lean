import Mathlib.Data.List.Induction
import NodeGroups.Pool
import NodeGroups.Proofs.Handle.Calls

/-!
# Moves of a pool

`Opens` lists the moves that are open to a pool, and what they make of it. A step of the task that holds the lock changes
nothing in what the operation of the task comes to, as `advance_cases` says.
-/

namespace NodeGroups
open Operation

theorem Task.Stage.eq_waiting : {α : Type} → {s : Stage α} → s.isWaiting = true → s = .waiting
  | _, waiting, _ => rfl

namespace Pool

variable {φ : Type}

/-- A pool without tasks. -/
def start (h : Handle) (fleets : φ) : Pool φ := { handle := h, fleets }

/-- The jobs that callers have come with, in order. -/
def submitted (moves : List Move) : List Job :=
  moves.filterMap fun
    | .submit j => some j
    | _ => none

/-- The tasks that have got the lock, in order and as often as they have. -/
def locked (moves : List Move) : List Nat :=
  moves.filterMap fun
    | .acquire i => some i
    | _ => none

/-- The caller is told something. -/
def Move.isAnswer : Move → Bool
  | answer _ | timeOut _ => true
  | _ => false

/-- A caller comes or gives up. -/
def Move.isOfCaller : Move → Bool
  | submit _ | timeOut _ => true
  | _ => false

/-- The moves open to a pool. -/
inductive Opens (reply : Fleets φ Nat) (q : Pool φ) : Move → Pool φ → Prop
  | submit {job} : Opens reply q (.submit job) { q with tasks := q.tasks ++ [{ job }] }
  | acquire {i t} : q.tasks[i]? = some t → t.stage = .waiting → q.isFree = true →
      Opens reply q (.acquire i)
        { q.put i { t with stage := .running (t.job.op q.handle.provider) } with events := q.events ++ q.handle.recovery }
  | proceed {i t rest} : q.tasks[i]? = some t → t.stage = .running rest →
      Opens reply q (.proceed i) (q.advance reply i t rest)
  | answer {i t v} : q.tasks[i]? = some t → t.stage = .ended v → t.answer = none →
      Opens reply q (.answer i) (q.put i { t with answer := some (v.getD (.error .brokenOff)) })
  | timeOut {i t} : q.tasks[i]? = some t → t.answer = none →
      Opens reply q (.timeOut i) (q.put i { t with answer := some (.error (.timeout q.handle.timeout)) })

variable {reply : Fleets φ Nat} {q q' : Pool φ} {i : Nat} {t : Task} {m : Move} {moves moves' : List Move}

theorem move?_eq_some_iff : q.move? reply m = some q' ↔ Opens reply q m q' := by
  constructor
  · intro h
    cases m with
    | submit job =>
        cases h
        exact .submit
    | acquire i =>
        obtain ⟨t, ht, h⟩ := Option.bind_eq_some_iff.mp h
        split at h
        · next hw =>
          cases h
          rw [Bool.and_eq_true] at hw
          exact .acquire ht (Task.Stage.eq_waiting hw.1) hw.2
        · cases h
    | proceed i =>
        obtain ⟨t, ht, h⟩ := Option.bind_eq_some_iff.mp h
        split at h
        · next hs =>
          cases h
          exact .proceed ht hs
        · cases h
    | answer i =>
        obtain ⟨t, ht, h⟩ := Option.bind_eq_some_iff.mp h
        split at h
        · next hs ha =>
          cases h
          exact .answer ht hs ha
        · cases h
    | timeOut i =>
        obtain ⟨t, ht, h⟩ := Option.bind_eq_some_iff.mp h
        split at h
        · next ha =>
          cases h
          exact .timeOut ht (Option.isNone_iff_eq_none.mp ha)
        · cases h
  · intro h
    cases h with
    | submit => rfl
    | acquire ht hs hf => simp [move?, ht, Task.Stage.isWaiting, hs, hf]
    | proceed ht hs => simp [move?, ht, hs]
    | answer ht hs ha => simp [move?, ht, hs, ha]
    | timeOut ht ha => simp [move?, ht, ha]

theorem moves?_append (q : Pool φ) (moves moves' : List Move) :
    q.moves? reply (moves ++ moves') = (q.moves? reply moves).bind (·.moves? reply moves') := by
  induction moves generalizing q with
  | nil => rfl
  | cons m moves ih =>
      simp only [List.cons_append, moves?, Option.bind_assoc]
      congr
      funext q'
      exact ih q'

theorem moves?_concat_eq_some_iff :
    q.moves? reply (moves ++ [m]) = some q' ↔ ∃ p, q.moves? reply moves = some p ∧ Opens reply p m q' := by
  simp [moves?_append, moves?, Option.bind_eq_some_iff, move?_eq_some_iff]

theorem moves?_trans {p : Pool φ} (h : p.moves? reply moves = some q) (h' : q.moves? reply moves' = some q') :
    p.moves? reply (moves ++ moves') = some q' := by
  rw [moves?_append, h]
  exact h'

theorem getElem?_set {tasks : List Task} (ht : tasks[i]? = some t) (t' : Task) (k : Nat) :
    (tasks.set i t')[k]? = if k = i then some t' else tasks[k]? := by
  rw [List.getElem?_set]
  by_cases hk : k = i
  · subst hk
    rw [if_pos rfl, if_pos rfl, if_pos (List.getElem?_eq_some_iff.mp ht).1]
  · rw [if_neg (Ne.symm hk), if_neg hk]

theorem getElem?_set_self {tasks : List Task} (ht : tasks[i]? = some t) (t' : Task) : (tasks.set i t')[i]? = some t' :=
  (getElem?_set ht t' i).trans (if_pos rfl)

theorem map_set {β : Type} {f : Task → β} {tasks : List Task} (ht : tasks[i]? = some t) (t' : Task) (hf : f t' = f t) :
    (tasks.set i t').map f = tasks.map f := by
  refine List.ext_getElem? fun k => ?_
  rw [List.getElem?_map, getElem?_set ht, List.getElem?_map]
  split
  · next hk => rw [hk, ht, Option.map_some, Option.map_some, hf]
  · rfl

theorem getElem?_submit {tasks : List Task} {k : Nat} {t' : Task} (h : (tasks ++ [t'])[k]? = some t) :
    tasks[k]? = some t ∨ k = tasks.length ∧ t = t' := by
  rw [List.getElem?_append] at h
  split at h
  · exact .inl h
  · rw [List.getElem?_singleton] at h
    split at h <;> cases h
    exact .inr ⟨by omega, rfl⟩

/-! ## Steps -/

theorem isFree_iff : q.isFree = true ↔ ∀ (k : Nat) (t : Task), q.tasks[k]? = some t → t.stage.isRunning = false := by
  simp only [isFree, List.all_eq_true, Bool.not_eq_true', List.mem_iff_getElem?, forall_exists_index]
  exact forall_comm

/-- A step either gives the lock back, or leaves it to come of the task what would have come of it before. -/
theorem advance_cases (reply : Fleets φ Nat) (q : Pool φ) (i : Nat) (t : Task) (rest : Provider.Op t.job.Result) :
    let r := rest.run reply q.fleets
    let q' := q.advance reply i t rest
    (q'.tasks = q.tasks.set i { t with stage := .ended r.value } ∧ q'.handle = q.handle.after r ∧ q'.fleets = r.fleets ∧
      q'.events = q.events ++ r.events.filter (!·.isLate)) ∨
    ∃ rest' : Provider.Op t.job.Result,
      let r' := rest'.run reply q'.fleets
      q'.tasks = q.tasks.set i { t with stage := .running rest' } ∧ q'.handle = q.handle ∧ r'.state = r.state ∧
        r'.value = r.value ∧ r'.fleets = r.fleets ∧
        q'.events ++ r'.events.filter (!·.isLate) = q.events ++ r.events.filter (!·.isLate) := by
  cases rest with
  | done p a =>
      left
      simp [advance, put, run, Handle.after]
  | warn n rest' =>
      right
      refine ⟨rest', rfl, rfl, rfl, rfl, rfl, ?_⟩
      simp [advance, put, run, Run.after, Event.isLate]
  | call p k r next =>
      -- an outcome that is late leaves a mark in the events of the run, which no step of a pool does
      cases ho : (reply q.fleets k r).2.outcome with
      | none =>
          left
          cases hl : (reply q.fleets k r).2.late <;> simp [advance, put, run, ho, hl, Handle.after, Event.isLate]
      | some o =>
          right
          refine ⟨next o, ?_⟩
          cases hl : (reply q.fleets k r).2.late <;> simp [advance, put, run, ho, hl, Run.after, Event.isLate]

theorem exists_advance (reply : Fleets φ Nat) (q : Pool φ) (i : Nat) (t : Task) (rest : Provider.Op t.job.Result) :
    (q.advance reply i t rest).handle.timeout = q.handle.timeout ∧
      ∃ stage, (q.advance reply i t rest).tasks = q.tasks.set i { t with stage } := by
  rcases advance_cases reply q i t rest with ⟨hs, hh, -⟩ | ⟨_, hs, hh, -⟩ <;> exact ⟨congrArg (·.timeout) hh, _, hs⟩

/-! ## Jobs -/

theorem map_job_of_moves? {h : Handle} {fleets : φ} (hq : (start h fleets).moves? reply moves = some q) :
    q.tasks.map (·.job) = submitted moves := by
  induction moves using List.reverseRecOn generalizing q with
  | nil =>
      cases hq
      rfl
  | append_singleton moves m ih =>
      obtain ⟨p, hp, hm⟩ := moves?_concat_eq_some_iff.mp hq
      rw [submitted, List.filterMap_append, ← submitted, ← submitted, ← ih hp]
      cases hm with
      | submit => exact List.map_append
      | @proceed i t rest ht =>
          obtain ⟨-, _, hs⟩ := exists_advance reply p i t rest
          refine Eq.trans ?_ (List.append_nil _).symm
          rw [hs]
          exact map_set ht _ rfl
      | acquire ht | answer ht | timeOut ht =>
          refine Eq.trans ?_ (List.append_nil _).symm
          exact map_set ht _ rfl

end Pool
end NodeGroups
