import NodeGroups.Proofs.Pool.Moves
import NodeGroups.RefreshLoop

/-!
# Moves of the refresh loop

`Steps` lists what a move makes of the loop. A poll comes down to `Polls`: the loop takes a branch that is ready, or goes
on sleeping because none is.
-/

namespace NodeGroups

theorem Duration.millis_pos {d : Duration} (h : d.isZero = false) : 0 < d.millis :=
  Nat.pos_of_ne_zero (by simpa [isZero] using h)

/-- A task stays what it is, and what its caller has been told is not taken back. -/
theorem Pool.Opens.exists_task {φ : Type} {reply : Operation.Fleets φ Nat} {q q' : Pool φ} {m : Pool.Move} {i : Nat}
    {t : Task} (h : Opens reply q m q') (ht : q.tasks[i]? = some t) :
    ∃ t', q'.tasks[i]? = some t' ∧ t'.job = t.job ∧ (t'.answer = none → t.answer = none) := by
  have hset : ∀ {k : Nat} {u : Task} {u' : Task}, q.tasks[k]? = some u → q'.tasks = q.tasks.set k u' →
      u'.job = u.job → (u'.answer = none → u.answer = none) →
      ∃ t', q'.tasks[i]? = some t' ∧ t'.job = t.job ∧ (t'.answer = none → t.answer = none) := by
    intro k u u' hu hq hj ha
    rw [hq, getElem?_set hu]
    split
    · next hik =>
      subst hik
      obtain rfl := Option.some.inj (hu.symm.trans ht)
      exact ⟨u', rfl, hj, ha⟩
    · exact ⟨t, ht, rfl, id⟩
  cases h with
  | submit => exact ⟨t, List.getElem?_append_left (List.getElem?_eq_some_iff.mp ht).1 ▸ ht, rfl, id⟩
  | acquire hu => exact hset hu rfl rfl id
  | @proceed k u rest hu =>
      obtain ⟨-, stage, hs⟩ := exists_advance reply q k u rest
      exact hset hu hs rfl id
  | answer hu _ ha | timeOut hu ha => exact hset hu rfl rfl fun _ => ha

namespace RefreshLoop
open Operation

variable {φ : Type} {reply : Fleets φ Nat} {l l' : RefreshLoop φ} {m : Move} {moves moves' : List Move}

def start (interval : Duration) (h : Handle) (fleets : φ) : RefreshLoop φ := { interval, pool := .start h fleets }

/-- The loop is told to stop, or nobody is left who could tell it. -/
def Move.isSignal : Move → Bool
  | send | abandon => true
  | _ => false

/-! ## Polls -/

/-- What the loop logs before it looks at its branches, unless it waits for an answer or has stopped. -/
def due? (l : RefreshLoop φ) : Option (List Notice) :=
  match l.stage with
  | .idle | .sleeping _ => some []
  | .refreshing i => l.report? i
  | .stopped => none

/-- What a poll makes of a loop whose interval is positive. -/
inductive Polls (l : RefreshLoop φ) : RefreshLoop φ → Prop
  | await {i} : l.stage = .refreshing i → l.report? i = none → Polls l l
  | refresh {deadline} : l.stage = .sleeping deadline → deadline ≤ l.clock → Polls l l.refresh
  | stop {ns} : l.due? = some ns → l.signal.isReady = true → Polls l { l.stop with log := l.log ++ ns }
  | sleep {ns deadline} : l.due? = some ns → l.signal.isReady = false → l.clock < deadline →
      Polls l { l with log := l.log ++ ns, stage := .sleeping deadline }

theorem select_of_lt {deadline : Nat} (h : l.clock < deadline) (first : Branch) :
    l.select deadline first = if l.signal.isReady then l.stop else { l with stage := .sleeping deadline } :=
  if_neg fun hd => Nat.not_le_of_lt h hd.1

theorem select_of_le {deadline : Nat} (h : deadline ≤ l.clock) (first : Branch) :
    l.select deadline first = l.refresh ∨ l.signal.isReady = true ∧ l.select deadline first = l.stop := by
  unfold select
  split
  · exact .inl rfl
  · next hn =>
    have hr : l.signal.isReady = true := by
      cases hs : l.signal.isReady with
      | true => rfl
      | false => exact absurd ⟨h, .inr hs⟩ hn
    exact .inr ⟨hr, if_pos hr⟩

/-- A timer that has just been set has not gone off. -/
theorem sleep_eq (hi : l.interval.isZero = false) (first : Branch) :
    l.sleep first = if l.signal.isReady then l.stop else { l with stage := .sleeping (l.clock + l.interval.millis) } :=
  select_of_lt (Nat.lt_add_of_pos_right (Duration.millis_pos hi)) first

/-- From idle, and from a refresh that has been answered, the loop goes to sleep or stops. -/
theorem polls_sleep (hi : l.interval.isZero = false) {ns : List Notice} (hns : l.due? = some ns) (first : Branch) :
    Polls l ({ l with log := l.log ++ ns }.sleep first) := by
  have he := sleep_eq (l := { l with log := l.log ++ ns }) hi first
  rw [he]
  split
  · next hr => exact .stop hns hr
  · next hr => exact .sleep hns (Bool.eq_false_iff.mpr hr) (Nat.lt_add_of_pos_right (Duration.millis_pos hi))

theorem polls_of_poll (hi : l.interval.isZero = false) {first : Branch} (h : l.poll first = some l') : Polls l l' := by
  unfold poll at h
  split at h
  · next hs =>
    cases h
    have hns : l.due? = some [] := by simp [due?, hs]
    simpa using polls_sleep hi hns first
  · next deadline hs =>
    cases h
    have hns : l.due? = some [] := by simp [due?, hs]
    rcases Nat.lt_or_ge l.clock deadline with hlt | hle
    · rw [select_of_lt hlt]
      split
      · next hr => simpa [RefreshLoop.stop] using Polls.stop hns hr
      · next hr => simpa using Polls.sleep hns (Bool.eq_false_iff.mpr hr) hlt
    · rcases select_of_le hle first with he | ⟨hr, he⟩
      · exact he ▸ .refresh hs hle
      · simpa [he, RefreshLoop.stop] using Polls.stop hns hr
  · next i hs =>
    split at h
    · next ha =>
      cases h
      exact .await hs ha
    · next ns ha =>
      cases h
      exact polls_sleep hi (by simp [due?, hs, ha]) first
  · cases h

/-! ## Moves -/

/-- The moves open to a loop whose interval is positive. -/
inductive Steps (reply : Fleets φ Nat) (l : RefreshLoop φ) : Move → RefreshLoop φ → Prop
  | pass {span} : Steps reply l (.pass span) { l with clock := l.clock + span.millis }
  | send : l.signal.abandoned = false → Steps reply l .send { l with signal := { l.signal with unseen := true } }
  | abandon : Steps reply l .abandon { l with signal := { l.signal with abandoned := true } }
  | poll {first l'} : Polls l l' → Steps reply l (.poll first) l'
  | pool {m q} : Pool.Opens reply l.pool m q → Steps reply l (.pool m) { l with pool := q }

theorem steps_of_move? (hi : l.interval.isZero = false) (h : l.move? reply m = some l') : Steps reply l m l' := by
  cases m with
  | pass span =>
      cases h
      exact .pass
  | send =>
      simp only [move?] at h
      split at h
      · cases h
      · next ha =>
        cases h
        exact .send (Bool.eq_false_iff.mpr ha)
  | abandon =>
      cases h
      exact .abandon
  | poll first => exact .poll (polls_of_poll hi h)
  | pool m =>
      obtain ⟨q, hq, rfl⟩ := Option.map_eq_some_iff.mp h
      exact .pool (Pool.move?_eq_some_iff.mp hq)

theorem Steps.interval_eq (h : Steps reply l m l') : l'.interval = l.interval := by
  cases h with
  | poll h => cases h <;> rfl
  | _ => rfl

theorem moves?_induction {P : RefreshLoop φ → Prop} (hi : l.interval.isZero = false)
    (hstep : ∀ {l l' : RefreshLoop φ} {m}, m ∈ moves → P l → Steps reply l m l' → P l')
    (hl : P l) (h : l.moves? reply moves = some l') : P l' := by
  induction moves generalizing l with
  | nil =>
      cases h
      exact hl
  | cons m moves ih =>
      obtain ⟨k, hk, h⟩ := Option.bind_eq_some_iff.mp h
      have hs := steps_of_move? hi hk
      exact ih (hs.interval_eq ▸ hi) (fun hm => hstep (List.mem_cons_of_mem _ hm)) (hstep List.mem_cons_self hl hs) h

end RefreshLoop
end NodeGroups
