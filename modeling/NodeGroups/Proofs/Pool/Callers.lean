import NodeGroups.Proofs.Pool.Moves

/-!
# What callers are told

A caller is told that it has given up, or what came of its own task, and what it is told plays no part in what the tasks
do. Main statements: `moves?_silent` and `told_of_moves?`.
-/

namespace NodeGroups.Pool
open Operation

variable {φ : Type} {reply : Fleets φ Nat} {q q' : Pool φ} {i : Nat} {t : Task} {m : Move} {moves moves' : List Move}

/-- The pool as if no caller had been told anything. -/
def silent (q : Pool φ) : Pool φ := { q with tasks := q.tasks.map fun t => { t with answer := none } }

theorem silent_advance (q : Pool φ) (i : Nat) (t : Task) (rest : Provider.Op t.job.Result) :
    (q.advance reply i t rest).silent = q.silent.advance reply i { t with answer := none } rest := by
  cases rest with
  | done | warn => simp [advance, silent, put, List.map_set]
  | call p k r next =>
      cases ho : (reply q.fleets k r).2.outcome <;> simp [advance, silent, put, List.map_set, ho]

theorem silent_put (ht : q.tasks[i]? = some t) (a : Option (Except Provider.Error t.job.Result)) :
    (q.put i { t with answer := a }).silent = q.silent := by
  unfold silent put
  congr 1
  exact map_set ht _ rfl

theorem getElem?_silent (ht : q.tasks[i]? = some t) : q.silent.tasks[i]? = some { t with answer := none } := by
  rw [silent, List.getElem?_map, ht]
  rfl

theorem isFree_silent (q : Pool φ) : q.silent.isFree = q.isFree := by
  simp [isFree, silent, Function.comp_def]

/-- What callers are told plays no part in what tasks do. -/
theorem Opens.silent (h : Opens reply q m q') :
    (m.isAnswer = true ∧ q'.silent = q.silent) ∨ (m.isAnswer = false ∧ Opens reply q.silent m q'.silent) := by
  cases h with
  | @submit job =>
      refine .inr ⟨rfl, ?_⟩
      have hs : Opens reply q.silent (.submit job) _ := .submit
      simpa [Pool.silent] using hs
  | acquire ht hw hq =>
      refine .inr ⟨rfl, ?_⟩
      rw [← isFree_silent] at hq
      have hs : Opens reply q.silent _ _ := .acquire (getElem?_silent ht) hw hq
      simpa [Pool.silent, put, List.map_set] using hs
  | proceed ht hr =>
      refine .inr ⟨rfl, ?_⟩
      rw [silent_advance]
      exact .proceed (getElem?_silent ht) hr
  | answer ht | timeOut ht => exact .inl ⟨rfl, silent_put ht _⟩

theorem moves?_silent (h : q.moves? reply moves = some q') :
    q.silent.moves? reply (moves.filter (!·.isAnswer)) = some q'.silent := by
  induction moves generalizing q with
  | nil =>
      cases h
      rfl
  | cons m moves ih =>
      obtain ⟨p, hp, h⟩ := Option.bind_eq_some_iff.mp h
      rcases (move?_eq_some_iff.mp hp).silent with ⟨hm, hs⟩ | ⟨hm, hs⟩
      · rw [List.filter_cons_of_neg (by simp [hm]), ← hs]
        exact ih h
      · rw [List.filter_cons_of_pos (by simp [hm]), moves?, move?_eq_some_iff.mpr hs]
        exact ih h

theorem locked_filter (moves : List Move) : locked (moves.filter (!·.isAnswer)) = locked moves := by
  rw [locked, locked, List.filterMap_filter]
  congr
  funext m
  cases m <;> rfl

theorem submitted_filter (moves : List Move) : submitted (moves.filter (!·.isAnswer)) = submitted moves := by
  rw [submitted, submitted, List.filterMap_filter]
  congr
  funext m
  cases m <;> rfl

/-! ## Answers -/

/-- What callers have been told: that they have given up, or what came of their own tasks. -/
structure Told (limit : Duration) (moves : List Move) (q : Pool φ) : Prop where
  timeout_eq : q.handle.timeout = limit
  of_timeOut : ∀ i, .timeOut i ∈ moves → ∃ t, q.tasks[i]? = some t ∧ t.answer = some (.error (.timeout limit))
  of_answer : ∀ (i : Nat) (t : Task) a, q.tasks[i]? = some t → t.answer = some a → .timeOut i ∉ moves →
    ∃ v, t.stage = .ended v ∧ a = v.getD (.error .brokenOff)

namespace Told

variable {limit : Duration}

theorem not_mem (h : Told limit moves q) (ht : q.tasks[i]? = some t) (ha : t.answer = none) : .timeOut i ∉ moves := by
  intro hm
  obtain ⟨u, hu, hau⟩ := h.of_timeOut i hm
  obtain rfl := Option.some.inj (ht.symm.trans hu)
  rw [ha] at hau
  cases hau

theorem submit (h : Told limit moves q) (job : Job) :
    Told limit (moves ++ [.submit job]) { q with tasks := q.tasks ++ [{ job }] } where
  timeout_eq := h.timeout_eq
  of_timeOut k hk := by
    rw [List.mem_append, List.mem_singleton] at hk
    obtain ⟨t, ht, ha⟩ := h.of_timeOut k (hk.resolve_right nofun)
    exact ⟨t, List.getElem?_append_left (List.getElem?_eq_some_iff.mp ht).1 ▸ ht, ha⟩
  of_answer k t a ht ha hk := by
    rw [List.mem_append, not_or] at hk
    rcases getElem?_submit ht with ht | ⟨-, rfl⟩
    · exact h.of_answer k t a ht ha hk.1
    · cases ha

/-- A task that is not over has told its caller nothing of its own, and goes on. -/
theorem work (h : Told limit moves q) (hm : m.isAnswer = false) (ht : q.tasks[i]? = some t)
    (ho : t.stage.isEnded = false) (hl : q'.handle.timeout = q.handle.timeout) {stage : Task.Stage t.job.Result}
    (hq : q'.tasks = q.tasks.set i { t with stage }) : Told limit (moves ++ [m]) q' := by
  -- nobody gives up in such a move
  have hne : ∀ k, .timeOut k ∈ moves ++ [m] ↔ .timeOut k ∈ moves := by
    intro k
    rw [List.mem_append, List.mem_singleton]
    exact or_iff_left fun he => by cases he; cases hm
  refine ⟨hl.trans h.timeout_eq, fun k hk => ?_, fun k u a hu ha hk => ?_⟩
  · rw [hne] at hk
    obtain ⟨u, hu, ha⟩ := h.of_timeOut k hk
    rw [hq, getElem?_set ht]
    split
    · next hki =>
      rw [hki, ht] at hu
      cases hu
      exact ⟨_, rfl, ha⟩
    · exact ⟨u, hu, ha⟩
  · rw [hne] at hk
    rw [hq, getElem?_set ht] at hu
    split at hu
    · next hki =>
      cases hu
      obtain ⟨v, hv, -⟩ := h.of_answer k t a (hki ▸ ht) ha hk
      rw [hv] at ho
      cases ho
    · exact h.of_answer k u a hu ha hk

/-- A caller who waits is told that it has given up, or what came of the task. -/
theorem tell (h : Told limit moves q) (ht : q.tasks[i]? = some t) (ha : t.answer = none)
    {a : Except Provider.Error t.job.Result}
    (hm : m = .timeOut i ∧ a = .error (.timeout limit) ∨
      m = .answer i ∧ ∃ v, t.stage = .ended v ∧ a = v.getD (.error .brokenOff)) :
    Told limit (moves ++ [m]) (q.put i { t with answer := some a }) := by
  have hget : ∀ k, (q.put i { t with answer := some a }).tasks[k]? = _ := getElem?_set ht _
  refine ⟨h.timeout_eq, fun k hk => ?_, fun k u b hu hb hk => ?_⟩
  · rw [hget]
    rw [List.mem_append, List.mem_singleton] at hk
    by_cases hki : k = i
    · subst hki
      rcases hm with ⟨-, rfl⟩ | ⟨rfl, -⟩
      · exact ⟨_, if_pos rfl, rfl⟩
      · exact absurd (hk.resolve_right nofun) (h.not_mem ht ha)
    · rw [if_neg hki]
      refine h.of_timeOut k (hk.resolve_right fun he => ?_)
      rcases hm with ⟨rfl, -⟩ | ⟨rfl, -⟩ <;> cases he
      exact hki rfl
  · rw [hget] at hu
    rw [List.mem_append, List.mem_singleton, not_or] at hk
    split at hu
    · next hki =>
      subst hki
      cases hu
      cases hb
      rcases hm with ⟨rfl, -⟩ | ⟨-, hv⟩
      · exact absurd rfl hk.2
      · exact hv
    · exact h.of_answer k u b hu hb hk.1

end Told

theorem told_of_moves? {h : Handle} {fleets : φ} (hq : (start h fleets).moves? reply moves = some q) :
    Told h.timeout moves q := by
  induction moves using List.reverseRecOn generalizing q with
  | nil =>
      cases hq
      exact ⟨rfl, by simp, fun i t a ht => nomatch ht⟩
  | append_singleton moves m ih =>
      obtain ⟨p, hp, ho⟩ := moves?_concat_eq_some_iff.mp hq
      cases ho with
      | submit => exact (ih hp).submit _
      | acquire ht hw => exact (ih hp).work rfl ht (by rw [hw]; rfl) rfl rfl
      | @proceed i t rest ht hr =>
          obtain ⟨hl, stage, hs⟩ := exists_advance reply p i t rest
          exact (ih hp).work rfl ht (by rw [hr]; rfl) hl hs
      | answer ht hs ha => exact (ih hp).tell ht ha (.inr ⟨rfl, _, hs, rfl⟩)
      | timeOut ht ha =>
          rw [(ih hp).timeout_eq]
          exact (ih hp).tell ht ha (.inl ⟨rfl, rfl⟩)

end NodeGroups.Pool
