import NodeGroups.Proofs.Provider.Removals
import NodeGroups.Proofs.RefreshLoop.Moves

/-!
# How the refresh loop comes to its end

The loop ends only after it has been told to, however its refreshes turn out, and starts at most one refresh more after
that. Main statement: `orderly`.
-/

namespace NodeGroups.RefreshLoop
open Operation

variable {φ : Type} {reply : Fleets φ Nat} {l l' : RefreshLoop φ} {m : Move} {moves moves' : List Move} {i : Nat} {t : Task}
  {ns : List Notice}

theorem report?_of_answer (ht : l.pool.tasks[i]? = some t) : l.report? i = t.answer.map complaints := by
  rw [report?, ht, Option.bind_some]

theorem ne_stopped_of_due? (h : l.due? = some ns) : l.stage ≠ .stopped := by
  intro hs
  simp [due?, hs] at h

/-- Where the loop looks at its branches, it waits for no answer. -/
theorem answer_ne_none_of_due? (h : l.due? = some ns) (hs : l.stage = .refreshing i) (ht : l.pool.tasks[i]? = some t) :
    t.answer ≠ none := by
  intro ha
  simp [due?, hs, report?_of_answer ht, ha] at h

/-! ## The signal -/

/-- The loop has been told to stop: it has stopped, or is going to see that it shall. -/
def Heard (l : RefreshLoop φ) : Prop := l.stage = .stopped ∨ l.signal.isReady = true

theorem Steps.heard_iff (h : Steps reply l m l') : l'.Heard ↔ l.Heard ∨ m.isSignal = true := by
  cases h with
  | pass | pool => simp [Heard, Move.isSignal]
  | send | abandon => simp [Heard, Move.isSignal, Signal.isReady]
  | poll h =>
      refine Iff.trans ?_ (or_iff_left Bool.false_ne_true).symm
      cases h with
      | await => rfl
      | refresh hs => simp [Heard, RefreshLoop.refresh, hs]
      | stop _ hr => exact iff_of_true (.inl rfl) (.inr hr)
      | sleep hns => simp [Heard, ne_stopped_of_due? hns]

theorem heard_of_moves? (hi : l.interval.isZero = false) (h : l.moves? reply moves = some l') :
    l'.Heard ↔ l.Heard ∨ ∃ m ∈ moves, m.isSignal = true := by
  induction moves generalizing l with
  | nil =>
      cases h
      simp
  | cons m moves ih =>
      obtain ⟨k, hk, h⟩ := Option.bind_eq_some_iff.mp h
      have hs := steps_of_move? hi hk
      rw [ih (hs.interval_eq ▸ hi) h, hs.heard_iff, List.exists_mem_cons_iff, or_assoc]

/-- How many refreshes the loop may still start once it has been told to stop. -/
def allowance (l : RefreshLoop φ) : Nat :=
  match l.stage with
  | .sleeping _ => 1
  | _ => 0

theorem allowance_le (l : RefreshLoop φ) : l.allowance ≤ 1 := by
  unfold allowance
  split <;> decide

/-- What the loop starts after it has been told to stop comes off its allowance. -/
theorem Steps.exists_started (h : Steps reply l m l') (hl : l.Heard) :
    ∃ is, l'.started = l.started ++ is ∧ is.length + l'.allowance ≤ l.allowance := by
  cases h with
  | pass | send | abandon | pool => exact ⟨[], by simp, by simp [allowance]⟩
  | poll h =>
      cases h with
      | await => exact ⟨[], by simp, by simp⟩
      | refresh hs => exact ⟨_, rfl, by simp [allowance, RefreshLoop.refresh, hs]⟩
      | stop => exact ⟨[], by simp [RefreshLoop.stop], by simp [allowance, RefreshLoop.stop]⟩
      -- it would not go on sleeping
      | sleep hns hr => exact absurd (hl.resolve_left (ne_stopped_of_due? hns)) (Bool.eq_false_iff.mp hr)

theorem exists_started_of_moves? (hi : l.interval.isZero = false) (hl : l.Heard) (h : l.moves? reply moves = some l') :
    ∃ is, l'.started = l.started ++ is ∧ is.length + l'.allowance ≤ l.allowance := by
  induction moves generalizing l with
  | nil =>
      cases h
      exact ⟨[], by simp, by simp⟩
  | cons m moves ih =>
      obtain ⟨k, hk, h⟩ := Option.bind_eq_some_iff.mp h
      have hs := steps_of_move? hi hk
      obtain ⟨is, he, hle⟩ := hs.exists_started hl
      obtain ⟨is', he', hle'⟩ := ih (hs.interval_eq ▸ hi) (hs.heard_iff.mpr (.inl hl)) h
      refine ⟨is ++ is', by rw [he', he, List.append_assoc], ?_⟩
      rw [List.length_append]
      omega

/-! ## The refreshes -/

/-- The refreshes that the loop has started are tasks of their own, and it waits for the answer of none but the one it
stands at. -/
structure Awaits (l : RefreshLoop φ) : Prop where
  nodup : l.started.Nodup
  task : ∀ i ∈ l.started, ∃ t, l.pool.tasks[i]? = some t ∧ t.job = .refresh ∧ (t.answer = none → l.stage = .refreshing i)

namespace Awaits

theorem lt_length (h : l.Awaits) (hi : i ∈ l.started) : i < l.pool.tasks.length := by
  obtain ⟨t, ht, -⟩ := h.task i hi
  exact (List.getElem?_eq_some_iff.mp ht).1

/-- The loop leaves the stage at which it waits for no answer. -/
theorem leave (h : l.Awaits) (hns : l.due? = some ns) (hs : l'.started = l.started) (hp : l'.pool = l.pool) :
    l'.Awaits where
  nodup := hs ▸ h.nodup
  task i hi := by
    obtain ⟨t, ht, hj, ha⟩ := h.task i (hs ▸ hi)
    exact ⟨t, hp ▸ ht, hj, fun hn => absurd hn (answer_ne_none_of_due? hns (ha hn) ht)⟩

theorem refresh (h : l.Awaits) {deadline : Nat} (hs : l.stage = .sleeping deadline) : l.refresh.Awaits where
  nodup := by
    have hn := h.nodup.concat fun hi => Nat.lt_irrefl _ (h.lt_length hi)
    rwa [List.concat_eq_append] at hn
  task i hi := by
    rcases List.mem_append.mp hi with hi | hi
    · obtain ⟨t, ht, hj, ha⟩ := h.task i hi
      -- asleep, the loop waits for none of the refreshes before
      refine ⟨t, List.getElem?_append_left (h.lt_length hi) ▸ ht, hj, fun hn => ?_⟩
      rw [hs] at ha
      cases ha hn
    · obtain rfl := List.mem_singleton.mp hi
      exact ⟨_, List.getElem?_concat_length, rfl, fun _ => rfl⟩

theorem step (h : l.Awaits) (hs : Steps reply l m l') : l'.Awaits := by
  cases hs with
  | pass | send | abandon => exact ⟨h.nodup, h.task⟩
  | pool ho =>
      refine ⟨h.nodup, fun i hi => ?_⟩
      obtain ⟨t, ht, hj, ha⟩ := h.task i hi
      obtain ⟨t', ht', hj', ha'⟩ := ho.exists_task ht
      exact ⟨t', ht', hj'.trans hj, fun hn => ha (ha' hn)⟩
  | poll hp =>
      cases hp with
      | await => exact h
      | refresh hs => exact h.refresh hs
      | stop hns | sleep hns => exact h.leave hns rfl rfl

end Awaits

/-! ## The whole run -/

theorem poll_answered (hi : l.interval.isZero = false) (hs : l.stage = .refreshing i) (ht : l.pool.tasks[i]? = some t)
    {a : Except Provider.Error t.job.Result} (ha : t.answer = some a) (hl : ¬ l.Heard) (first : Branch) :
    l.poll first =
      some { l with log := l.log ++ complaints a, stage := .sleeping (l.clock + l.interval.millis) } := by
  have he := sleep_eq (l := { l with log := l.log ++ complaints a }) hi first
  have hr : l.signal.isReady = false := Bool.eq_false_iff.mpr fun hr => hl (.inr hr)
  rw [poll, hs]
  simp only [report?_of_answer ht, ha, Option.map_some]
  rw [← hs, he, if_neg (Bool.eq_false_iff.mp hr)]

/-- A loop that has been told to stop does so as soon as it looks at its branches, or starts a refresh if the timer has gone
off too. -/
theorem poll_heard (hi : l.interval.isZero = false) (hns : l.due? = some ns) (hl : l.Heard) (first : Branch) :
    ∃ l', l.poll first = some l' ∧
      (l'.stage = .stopped ∧ l'.started = l.started ∨
        (∃ deadline, l.stage = .sleeping deadline ∧ deadline ≤ l.clock) ∧ l' = l.refresh) := by
  obtain ⟨l', h⟩ : ∃ l', l.poll first = some l' := by
    unfold poll
    cases hs : l.stage with
    | idle | sleeping => exact ⟨_, rfl⟩
    | refreshing i =>
        simp only [due?, hs] at hns
        simp [hns]
    | stopped => exact absurd hs (ne_stopped_of_due? hns)
  refine ⟨l', h, ?_⟩
  cases polls_of_poll hi h with
  | await hs ha => simp [due?, hs, ha] at hns
  | refresh hs hd => exact .inr ⟨⟨_, hs, hd⟩, rfl⟩
  | stop => exact .inl ⟨rfl, rfl⟩
  | sleep _ hr => exact absurd (hl.resolve_left (ne_stopped_of_due? hns)) (Bool.eq_false_iff.mp hr)

/-- How a loop behaves that has come through these moves. -/
structure Orderly (reply : Fleets φ Nat) (moves : List Move) (l : RefreshLoop φ) : Prop where
  /-- It has not ended by itself. -/
  told : l.stage = .stopped → ∃ m ∈ moves, m.isSignal = true
  awaits : l.Awaits
  /-- No answer of a refresh ends it. -/
  goes_on : ∀ (i : Nat) (t : Task) a first, l.stage = .refreshing i → l.pool.tasks[i]? = some t → t.answer = some a →
    (∀ m ∈ moves, m.isSignal = false) →
    l.poll first = some { l with log := l.log ++ complaints a, stage := .sleeping (l.clock + l.interval.millis) }
  /-- Once it has been told to stop it starts at most one refresh more. -/
  last : (∃ m ∈ moves, m.isSignal = true) → ∀ moves' l', l.moves? reply moves' = some l' →
    ∃ is, l'.started = l.started ++ is ∧ is.length ≤ 1
  /-- Once it has been told to stop it does so where it looks at its branches, or starts that refresh. -/
  ends : (∃ m ∈ moves, m.isSignal = true) → ∀ ns first, l.due? = some ns → ∃ l', l.poll first = some l' ∧
    (l'.stage = .stopped ∧ l'.started = l.started ∨
      (∃ deadline, l.stage = .sleeping deadline ∧ deadline ≤ l.clock) ∧ l' = l.refresh)

theorem orderly {interval : Duration} {h : Handle} {fleets : φ} (hi : interval.isZero = false)
    (hl : (start interval h fleets).moves? reply moves = some l) : Orderly reply moves l := by
  have hli : l.interval.isZero = false :=
    moves?_induction (P := fun l => l.interval.isZero = false) hi (fun _ hi hs => hs.interval_eq ▸ hi) hi hl
  have hstart : ¬ (start interval h fleets).Heard := by simp [start, Heard, Signal.isReady]
  have hheard : l.Heard ↔ ∃ m ∈ moves, m.isSignal = true := (heard_of_moves? hi hl).trans (or_iff_right hstart)
  refine ⟨fun hs => hheard.mp (.inl hs), ?_, fun i t a first hs ht ha hn => ?_, fun hm moves' l' h' => ?_,
    fun hm ns first hns => poll_heard hli hns (hheard.mpr hm) first⟩
  · have h₀ : (start interval h fleets).Awaits := ⟨.nil, fun _ hi => nomatch hi⟩
    exact moves?_induction hi (fun _ h hs => h.step hs) h₀ hl
  · refine poll_answered hli hs ht ha (fun hh => ?_) first
    obtain ⟨m, hm, hms⟩ := hheard.mp hh
    rw [hn m hm] at hms
    cases hms
  · obtain ⟨is, he, hle⟩ := exists_started_of_moves? hli (hheard.mpr hm) h'
    exact ⟨is, he, by have := l.allowance_le; omega⟩

/-- The first refresh breaks off. The loop is told to stop when the timer has gone off again, and starts a second refresh,
whose caller gives up. -/
def lateStop : List Move :=
  [.poll .timer, .pass ⟨10⟩, .poll .timer, .pool (.acquire 0), .pool (.proceed 0), .pool (.answer 0), .poll .timer,
    .pass ⟨10⟩, .send, .poll .timer, .pool (.timeOut 1)]

def beforeLateStop : RefreshLoop (List Fleet.Script) :=
  start ⟨10⟩ { provider := Provider.twoGroups, timeout := .ofSeconds 5 } [{ status := [{ outcome := none }] }, {}]

theorem orderly_lateStop :
    ∃ l l', beforeLateStop.moves? Fleet.Script.row lateStop = some l ∧ l.started = [0, 1] ∧ l.Awaits ∧
      l.poll .timer = some l' ∧ l'.stage = .stopped := by
  obtain ⟨l, hl, hs, hst, hd⟩ : ∃ l, beforeLateStop.moves? Fleet.Script.row lateStop = some l ∧ l.started = [0, 1] ∧
      l.stage = .refreshing 1 ∧ l.due?.isSome = true := ⟨_, rfl, rfl, rfl, rfl⟩
  have h := orderly (by decide) hl
  obtain ⟨ns, hns⟩ := Option.isSome_iff_exists.mp hd
  obtain ⟨l', hp, ⟨hs', -⟩ | ⟨⟨deadline, he, -⟩, -⟩⟩ := h.ends ⟨.send, by decide, rfl⟩ ns .timer hns
  · exact ⟨l, l', hl, hs, h.awaits, hp, hs'⟩
  · rw [hst] at he
    cases he

end NodeGroups.RefreshLoop
