import NodeGroups.Proofs.Pool.Moves

/-!
# All tasks come to their end

Nothing that callers do keeps the tasks of a pool from their end: whatever has happened, they can all be done. Main
statement: `exists_settled`.
-/

namespace NodeGroups
open Operation

/-- The operation of the task is over, and its caller has been told something. -/
def Task.isSettled (t : Task) : Bool := t.stage.isEnded && t.answer.isSome

namespace Pool

variable {φ : Type} {reply : Fleets φ Nat} {q q' : Pool φ} {i : Nat} {t : Task} {m : Move} {moves moves' : List Move}

/-- The task at that place can come to be this one without a caller who comes or gives up. -/
def Reaches (reply : Fleets φ Nat) (q : Pool φ) (i : Nat) (t : Task) : Prop :=
  ∃ moves q', q.moves? reply moves = some q' ∧ (∀ m ∈ moves, m.isOfCaller = false) ∧ q'.tasks = q.tasks.set i t

theorem Reaches.refl (ht : q.tasks[i]? = some t) : Reaches reply q i t :=
  ⟨[], q, rfl, by simp, by simpa using (map_set (f := id) ht t rfl).symm⟩

theorem Reaches.move {t' : Task} (ho : Opens reply q m q') (hm : m.isOfCaller = false) (hs : q'.tasks = q.tasks.set i t')
    (h : Reaches reply q' i t) : Reaches reply q i t := by
  obtain ⟨moves, p, hp, hc, ht⟩ := h
  refine ⟨m :: moves, p, ?_, List.forall_mem_cons.mpr ⟨hm, hc⟩, ?_⟩
  · rw [moves?, move?_eq_some_iff.mpr ho]
    exact hp
  · rw [ht, hs, List.set_set]

/-- An operation that holds the lock comes to its end. -/
theorem reaches_ended (reply : Fleets φ Nat) {job : Job} {answer : Option (Except Provider.Error job.Result)} :
    (rest : Provider.Op job.Result) → {q : Pool φ} → q.tasks[i]? = some ⟨job, .running rest, answer⟩ →
      ∃ v, Reaches reply q i ⟨job, .ended v, answer⟩
  | .done p a, _, ht => ⟨some a, .move (.proceed ht rfl) rfl rfl (.refl (getElem?_set_self ht _))⟩
  | .warn n rest, q, ht => by
      have hs : (q.advance reply i ⟨job, .running (.warn n rest), answer⟩ (.warn n rest)).tasks =
          q.tasks.set i ⟨job, .running rest, answer⟩ := rfl
      obtain ⟨v, h⟩ := reaches_ended reply rest (hs ▸ getElem?_set_self ht _)
      exact ⟨v, .move (.proceed ht rfl) rfl hs h⟩
  | .call p k r next, q, ht => by
      cases ho : (reply q.fleets k r).2.outcome with
      | none =>
          have hs : (q.advance reply i ⟨job, .running (.call p k r next), answer⟩ (.call p k r next)).tasks =
              q.tasks.set i ⟨job, .ended none, answer⟩ := by simp [advance, put, ho]
          exact ⟨none, .move (.proceed ht rfl) rfl hs (.refl (hs ▸ getElem?_set_self ht _))⟩
      | some o =>
          have hs : (q.advance reply i ⟨job, .running (.call p k r next), answer⟩ (.call p k r next)).tasks =
              q.tasks.set i ⟨job, .running (next o), answer⟩ := by simp [advance, put, ho]
          obtain ⟨v, h⟩ := reaches_ended reply (next o) (hs ▸ getElem?_set_self ht _)
          exact ⟨v, .move (.proceed ht rfl) rfl hs h⟩

theorem Reaches.trans {t' u : Task} (ht : q.tasks[i]? = some u) (h : Reaches reply q i t)
    (h' : ∀ q', q'.tasks[i]? = some t → Reaches reply q' i t') : Reaches reply q i t' := by
  obtain ⟨moves, p, hp, hc, hs⟩ := h
  obtain ⟨moves', p', hp', hc', hs'⟩ := h' p (hs ▸ getElem?_set_self ht t)
  refine ⟨moves ++ moves', p', moves?_trans hp hp', List.forall_mem_append.mpr ⟨hc, hc'⟩, ?_⟩
  rw [hs', hs, List.set_set]

theorem reaches_answer {job : Job} {v : Option (Except Provider.Error job.Result)}
    {answer : Option (Except Provider.Error job.Result)} (ht : q.tasks[i]? = some ⟨job, .ended v, answer⟩) :
    Reaches reply q i ⟨job, .ended v, some (answer.getD (v.getD (.error .brokenOff)))⟩ := by
  cases answer with
  | none => exact .move (.answer ht rfl rfl) rfl rfl (.refl (getElem?_set_self ht _))
  | some a => exact .refl ht

/-- A task that holds the lock or may get it comes to its end, and its caller is told something. -/
theorem exists_reaches_answer (reply : Fleets φ Nat) (ht : q.tasks[i]? = some t)
    (hq : q.isFree = true ∨ t.stage.isRunning = true) : ∃ v a, Reaches reply q i ⟨t.job, .ended v, some a⟩ := by
  obtain ⟨job, stage, answer⟩ := t
  cases stage with
  | ended v => exact ⟨v, _, reaches_answer ht⟩
  | running rest =>
      obtain ⟨v, h⟩ := reaches_ended reply rest ht
      exact ⟨v, _, h.trans ht fun _ => reaches_answer⟩
  | waiting =>
      have hf := hq.resolve_right Bool.false_ne_true
      let p : Pool φ :=
        { q.put i ⟨job, .running (job.op q.handle.provider), answer⟩ with events := q.events ++ q.handle.recovery }
      have hp : p.tasks = q.tasks.set i ⟨job, .running (job.op q.handle.provider), answer⟩ := rfl
      have ht' := hp ▸ getElem?_set_self ht _
      obtain ⟨v, h⟩ := reaches_ended reply _ ht'
      exact ⟨v, _, .move (.acquire ht rfl hf) rfl hp (h.trans ht' fun _ => reaches_answer)⟩

/-- As long as not all is done there is a task that holds the lock or may get it. -/
theorem exists_open (q : Pool φ) (h : 0 < q.tasks.countP (!·.isSettled)) :
    ∃ (i : Nat) (t : Task), q.tasks[i]? = some t ∧ t.isSettled = false ∧ (q.isFree = true ∨ t.stage.isRunning = true) := by
  by_cases hf : q.isFree = true
  · obtain ⟨t, ht, hs⟩ := List.countP_pos_iff.mp h
    obtain ⟨i, hi⟩ := List.mem_iff_getElem?.mp ht
    exact ⟨i, t, hi, by simpa using hs, .inl hf⟩
  · simp only [isFree_iff, not_forall, Bool.not_eq_false] at hf
    obtain ⟨i, t, ht, hr⟩ := hf
    refine ⟨i, t, ht, ?_, .inr hr⟩
    cases hs : t.stage <;> simp [hs, Task.Stage.isRunning, Task.isSettled, Task.Stage.isEnded] at hr ⊢

/-- Whatever has happened, all tasks can still be done and all callers be told something. -/
theorem exists_settled (reply : Fleets φ Nat) (q : Pool φ) :
    ∃ moves q', q.moves? reply moves = some q' ∧ (∀ m ∈ moves, m.isOfCaller = false) ∧
      ∀ t ∈ q'.tasks, t.isSettled = true := by
  -- on how many tasks are not settled: one at a time is brought to its end
  induction hn : q.tasks.countP (!·.isSettled) generalizing q with
  | zero =>
      refine ⟨[], q, rfl, by simp, ?_⟩
      simpa using hn
  | succ n ih =>
      obtain ⟨i, t, ht, hs, hq⟩ := exists_open q (hn ▸ Nat.succ_pos n)
      obtain ⟨v, a, moves, p, hp, hc, hpt⟩ := exists_reaches_answer reply ht hq
      obtain ⟨hi, he⟩ := List.getElem?_eq_some_iff.mp ht
      have hcount : p.tasks.countP (!·.isSettled) = n := by
        rw [hpt, List.countP_set hi, hn, he, hs]
        rfl
      obtain ⟨moves', p', hp', hc', hs'⟩ := ih p hcount
      exact ⟨moves ++ moves', p', moves?_trans hp hp', List.forall_mem_append.mpr ⟨hc, hc'⟩, hs'⟩

end Pool
end NodeGroups
