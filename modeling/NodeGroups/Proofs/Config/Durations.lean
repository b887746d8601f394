import NodeGroups.Config.Error
import NodeGroups.Proofs.Text.Written

/-!
# Durations as they are written

A duration is a number with a unit behind it, or with none. A number ends in a digit and no unit does, so that a text says one
duration only, whatever unit is looked for first. Main statement: `duration_as_written`.
-/

namespace NodeGroups

namespace Duration
open Text (Numeral naturalBound)

/-- What a text says: so many whole seconds, and so many nanoseconds above them. -/
inductive Says : List Char → Nat → Nat → Prop
  | millis {t n} : Numeral t n → n < naturalBound → Says (t ++ ['m', 's']) (n / 1000) (n % 1000 * 1000000)
  | seconds {t n} : Numeral t n → n < naturalBound → Says (t ++ ['s']) n 0
  | minutes {t n} : Numeral t n → n < naturalBound → 60 * n < naturalBound → Says (t ++ ['m']) (60 * n) 0
  | bare {t n} : Numeral t n → n < naturalBound → Says t n 0

variable {cs t unit : List Char} {a b : Char} {n seconds nanos : Nat} {d : Duration}

/-! ## Units -/

theorem before?_append (t unit : List Char) : before? unit (t ++ unit) = some t := by
  rw [before?, if_pos (List.suffix_append t unit), List.length_append, Nat.add_sub_cancel, List.take_left]

theorem before?_eq_some_iff : before? unit cs = some t ↔ cs = t ++ unit := by
  constructor
  · intro h
    by_cases hs : unit <:+ cs
    · obtain ⟨u, rfl⟩ := hs
      rw [before?_append] at h
      rw [Option.some.inj h]
    · rw [before?, if_neg hs] at h
      cases h
  · rintro rfl
    exact before?_append t unit

/-- A text that ends in another character does not end in the unit. -/
theorem before?_eq_none (hcs : cs.getLast? = some a) (hu : unit.getLast? = some b) (hab : a ≠ b) :
    before? unit cs = none := by
  rw [Option.eq_none_iff_forall_ne_some]
  intro t ht
  apply hab
  rw [before?_eq_some_iff.mp ht, List.getLast?_append, hu, Option.some_or] at hcs
  exact (Option.some.inj hcs).symm

theorem exists_digit_of_numeral (h : Numeral cs n) : ∃ c, cs.getLast? = some c ∧ c.isDigit = true := by
  obtain ⟨ds, ⟨hne, hd⟩, rfl | rfl, -⟩ := h
  · exact ⟨_, List.getLast?_eq_some_getLast hne, hd _ (List.getLast_mem hne)⟩
  · refine ⟨_, ?_, hd _ (List.getLast_mem hne)⟩
    rw [List.getLast?_cons, List.getLast?_eq_some_getLast hne, Option.getD_some]

/-- A unit that ends in something else than a digit is not at the end of a number. -/
theorem before?_of_numeral (h : Numeral t n) (hu : unit.getLast? = some b) (hb : b.isDigit = false) :
    before? unit t = none := by
  obtain ⟨c, hc, hcd⟩ := exists_digit_of_numeral h
  apply before?_eq_none hc hu
  rintro rfl
  rw [hb] at hcd
  cases hcd

/-- The `s` behind a number is not that of `ms`, for a digit stands before it. -/
theorem before?_ms_of_numeral (h : Numeral t n) : before? ['m', 's'] (t ++ ['s']) = none := by
  obtain ⟨c, hc, hcd⟩ := exists_digit_of_numeral h
  rw [Option.eq_none_iff_forall_ne_some]
  intro u hu
  have he : t ++ ['s'] = u ++ ['m'] ++ ['s'] := by
    rw [before?_eq_some_iff.mp hu, List.append_assoc, List.singleton_append]
  rw [List.append_cancel_right he, List.getLast?_concat] at hc
  rw [← Option.some.inj hc] at hcd
  exact absurd hcd (by decide)

/-! ## Readings -/

@[simp] theorem seconds_ofSeconds (n : Nat) : (ofSeconds n).seconds = n :=
  Nat.mul_div_cancel_left n (by decide)

@[simp] theorem nanos_ofSeconds (n : Nat) : (ofSeconds n).nanos = 0 := by
  rw [nanos, ofSeconds, Nat.mul_mod_right, Nat.zero_mul]

theorem millis_eq (d : Duration) : d.millis = 1000 * d.seconds + d.nanos / 1000000 := by
  rw [seconds, nanos, Nat.mul_div_cancel _ (by decide), Nat.div_add_mod]

theorem eq_of_seconds_of_nanos {d d' : Duration} (hs : d.seconds = d'.seconds) (hn : d.nanos = d'.nanos) : d = d' := by
  have hm : d.millis = d'.millis := by rw [millis_eq, millis_eq d', hs, hn]
  cases d
  cases d'
  exact congrArg Duration.mk hm

theorem map_natural?_eq_some_iff {f : Nat → Duration} :
    (Text.natural? t).map f = some d ↔ ∃ n, Numeral t n ∧ n < naturalBound ∧ f n = d := by
  simp only [Option.map_eq_some_iff, Text.natural?_eq_some_iff, and_assoc]

theorem says_of_ofChars? (h : ofChars? cs = some d) : Says cs d.seconds d.nanos := by
  unfold ofChars? at h
  split at h
  · next t _ _ hms =>
    obtain ⟨n, hn, hlt, rfl⟩ := map_natural?_eq_some_iff.mp h
    rw [before?_eq_some_iff.mp hms]
    exact .millis hn hlt
  · next t _ _ hs =>
    obtain ⟨n, hn, hlt, rfl⟩ := map_natural?_eq_some_iff.mp h
    rw [before?_eq_some_iff.mp hs, seconds_ofSeconds, nanos_ofSeconds]
    exact .seconds hn hlt
  · next t _ _ hm =>
    obtain ⟨n, hn, h⟩ := Option.bind_eq_some_iff.mp h
    obtain ⟨hn, hlt⟩ := Text.natural?_eq_some_iff.mp hn
    rw [Option.ite_none_right_eq_some, Option.some.injEq, Nat.mul_comm] at h
    obtain ⟨hlt', rfl⟩ := h
    rw [before?_eq_some_iff.mp hm, seconds_ofSeconds, nanos_ofSeconds]
    exact .minutes hn hlt hlt'
  · obtain ⟨n, hn, hlt, rfl⟩ := map_natural?_eq_some_iff.mp h
    rw [seconds_ofSeconds, nanos_ofSeconds]
    exact .bare hn hlt

/-- The units that are looked for first are not there, so that the one that is there is found. -/
theorem ofChars?_of_says (h : Says cs seconds nanos) :
    ∃ d, ofChars? cs = some d ∧ d.seconds = seconds ∧ d.nanos = nanos := by
  cases h with
  | millis hn hlt =>
      refine ⟨⟨_⟩, ?_, rfl, rfl⟩
      rw [ofChars?, before?_append]
      exact map_natural?_eq_some_iff.mpr ⟨_, hn, hlt, rfl⟩
  | seconds hn hlt =>
      refine ⟨_, ?_, seconds_ofSeconds _, nanos_ofSeconds _⟩
      rw [ofChars?, before?_ms_of_numeral hn, before?_append]
      exact map_natural?_eq_some_iff.mpr ⟨_, hn, hlt, rfl⟩
  | @minutes t n hn hlt hlt' =>
      have hms : before? ['m', 's'] (t ++ ['m']) = none := before?_eq_none List.getLast?_concat rfl (by decide)
      have hs : before? ['s'] (t ++ ['m']) = none := before?_eq_none List.getLast?_concat rfl (by decide)
      refine ⟨_, ?_, seconds_ofSeconds _, nanos_ofSeconds _⟩
      rw [Nat.mul_comm] at hlt' ⊢
      rw [ofChars?, hms, hs, before?_append]
      exact Option.bind_eq_some_iff.mpr ⟨n, Text.natural?_eq_some_iff.mpr ⟨hn, hlt⟩, if_pos hlt'⟩
  | bare hn hlt =>
      have hms : before? ['m', 's'] cs = none := before?_of_numeral hn rfl rfl
      have hs : before? ['s'] cs = none := before?_of_numeral hn rfl rfl
      have hm : before? ['m'] cs = none := before?_of_numeral hn rfl rfl
      refine ⟨_, ?_, seconds_ofSeconds _, nanos_ofSeconds _⟩
      rw [ofChars?, hms, hs, hm]
      exact map_natural?_eq_some_iff.mpr ⟨_, hn, hlt, rfl⟩

theorem ofChars?_eq_some_iff : ofChars? cs = some d ↔ Says cs d.seconds d.nanos := by
  constructor
  · exact says_of_ofChars?
  · intro h
    obtain ⟨d', hd', hs, hn⟩ := ofChars?_of_says h
    rw [hd', eq_of_seconds_of_nanos hs hn]

theorem ofChars?_eq_none_iff : ofChars? cs = none ↔ ∀ seconds nanos, ¬ Says cs seconds nanos := by
  constructor
  · intro h seconds nanos hs
    obtain ⟨d, hd, -⟩ := ofChars?_of_says hs
    rw [h] at hd
    cases hd
  · intro h
    rw [Option.eq_none_iff_forall_ne_some]
    exact fun d hd => h _ _ (says_of_ofChars? hd)

/-- Nothing that is said is beyond what the seconds and the nanoseconds of a duration can hold. -/
theorem Says.lt (h : Says cs seconds nanos) : seconds < naturalBound ∧ nanos < 1000000000 := by
  cases h with
  | millis _ hlt => exact ⟨by omega, by omega⟩
  | seconds _ hlt => exact ⟨hlt, by omega⟩
  | minutes _ _ hlt => exact ⟨hlt, by omega⟩
  | bare _ hlt => exact ⟨hlt, by omega⟩

end Duration

namespace Config
open Text (Trims naturalBound)
open Duration (Says)

variable {text : String} {d : Duration} {e : Error}

theorem duration_eq_ok_iff : duration text = .ok d ↔ ∃ t, Trims text.toList t ∧ Says t d.seconds d.nanos := by
  simp only [← Text.trimmed_eq_iff, exists_eq_left', ← Duration.ofChars?_eq_some_iff]
  rw [duration, Duration.parse?]
  cases Duration.ofChars? (Text.trimmed text.toList) <;> simp

theorem duration_eq_error_iff :
    duration text = .error e ↔
      ∃ t, Trims text.toList t ∧ (∀ seconds nanos, ¬ Says t seconds nanos) ∧ e = .invalidDuration (String.ofList t) := by
  simp only [← Text.trimmed_eq_iff, exists_eq_left', ← Duration.ofChars?_eq_none_iff]
  rw [duration, Duration.parse?, Text.trim]
  cases Duration.ofChars? (Text.trimmed text.toList) <;> simp [eq_comm]

/-- A text is read as a duration just if one is written between the blanks around it, and is read as that duration to the
nanosecond. If none is written there, the error carries what is. -/
theorem duration_as_written :
    (∀ text d, duration text = .ok d ↔ ∃ t, Trims text.toList t ∧ Says t d.seconds d.nanos) ∧
      (∀ text e, duration text = .error e ↔
        ∃ t, Trims text.toList t ∧ (∀ seconds nanos, ¬ Says t seconds nanos) ∧ e = .invalidDuration (String.ofList t)) ∧
      ∀ text d, duration text = .ok d → d.seconds < naturalBound ∧ d.nanos < 1000000000 := by
  refine ⟨fun _ _ => duration_eq_ok_iff, fun _ _ => duration_eq_error_iff, fun _ _ h => ?_⟩
  obtain ⟨_, -, hs⟩ := duration_eq_ok_iff.mp h
  exact hs.lt

/-- Sixty seconds more would be beyond the bound. -/
theorem duration_as_written_minutes :
    duration "\u2003+307445734561825860m\n" = .ok (.ofSeconds 18446744073709551600) ∧
      18446744073709551600 < naturalBound := by
  have h : duration "\u2003+307445734561825860m\n" = .ok (.ofSeconds 18446744073709551600) := by decide +kernel
  have hlt := (duration_as_written.2.2 _ _ h).1
  rw [Duration.seconds_ofSeconds] at hlt
  exact ⟨h, hlt⟩

end Config
end NodeGroups
