import Mathlib.Data.List.TakeWhile
import NodeGroups.Text.Blank
import NodeGroups.Text.Natural

/-!
# Texts and numbers as they are written

What is left of a text without the blanks around it, which parts it has between separators, and which number it writes, is said
here of the characters themselves. Main statements: `trimmed_eq_iff`, `splitOn_eq_iff` and `natural?_eq_some_iff`.
-/

namespace NodeGroups.Text

variable {cs t before after ds : List Char} {n : Nat}

/-! ## Blanks -/

/-- The text neither begins nor ends with a blank. -/
structure Tight (t : List Char) : Prop where
  first : ∀ c, t.head? = some c → isBlank c = false
  last : ∀ c, t.getLast? = some c → isBlank c = false

/-- The characters are those of the text, with blanks around them that are not part of it. -/
def Trims (cs t : List Char) : Prop :=
  Tight t ∧ ∃ before after, cs = before ++ t ++ after ∧ (∀ c ∈ before, isBlank c = true) ∧ ∀ c ∈ after, isBlank c = true

theorem dropWhile_isBlank_of_head? (h : ∀ c, t.head? = some c → isBlank c = false) : t.dropWhile isBlank = t := by
  cases t with
  | nil => rfl
  | cons c t => rw [List.dropWhile_cons_of_neg (by simp [h c rfl])]

theorem head?_dropWhile_isBlank (c : Char) (h : (cs.dropWhile isBlank).head? = some c) : isBlank c = false := by
  have hn := List.head?_dropWhile_not isBlank cs
  rwa [h] at hn

theorem Tight.trims (h : Tight t) : Trims t t :=
  ⟨h, [], [], (List.append_nil t).symm, nofun, nofun⟩

theorem Tight.trimmed_eq (h : Tight t) : trimmed t = t := by
  have hl : t.reverse.dropWhile isBlank = t.reverse :=
    dropWhile_isBlank_of_head? fun c hc => h.last c (by rwa [List.head?_reverse] at hc)
  rw [trimmed, dropWhile_isBlank_of_head? h.first, hl, List.reverse_reverse]

theorem trimmed_append_left (h : ∀ c ∈ before, isBlank c = true) (cs : List Char) :
    trimmed (before ++ cs) = trimmed cs := by
  rw [trimmed, List.dropWhile_append_of_pos h, trimmed]

theorem trimmed_append_right (h : ∀ c ∈ after, isBlank c = true) (cs : List Char) :
    trimmed (cs ++ after) = trimmed cs := by
  have hr : ∀ c ∈ after.reverse, isBlank c = true := fun c hc => h c (List.mem_reverse.mp hc)
  rw [trimmed, List.dropWhile_append, trimmed]
  split
  · next he =>
    rw [List.isEmpty_iff] at he
    rw [he, List.dropWhile_eq_nil_iff.mpr h]
  · rw [List.reverse_append, List.dropWhile_append_of_pos hr]

theorem trims_trimmed (cs : List Char) : Trims cs (trimmed cs) := by
  have hcs := List.takeWhile_append_dropWhile (p := isBlank) (l := cs)
  have hrest := List.takeWhile_append_dropWhile (p := isBlank) (l := (cs.dropWhile isBlank).reverse)
  have hsplit : cs.dropWhile isBlank =
      trimmed cs ++ ((cs.dropWhile isBlank).reverse.takeWhile isBlank).reverse := by
    rw [trimmed, ← List.reverse_append, hrest, List.reverse_reverse]
  refine ⟨⟨fun c hc => ?_, fun c hc => ?_⟩, cs.takeWhile isBlank,
    ((cs.dropWhile isBlank).reverse.takeWhile isBlank).reverse, ?_, fun c hc => ?_, fun c hc => ?_⟩
  · have hd : (cs.dropWhile isBlank).head? = some c := by
      rw [hsplit, List.head?_append, hc]
      rfl
    exact head?_dropWhile_isBlank c hd
  · rw [trimmed, List.getLast?_reverse] at hc
    exact head?_dropWhile_isBlank c hc
  · rw [List.append_assoc, ← hsplit, hcs]
  · exact List.mem_takeWhile_imp hc
  · exact List.mem_takeWhile_imp (List.mem_reverse.mp hc)

theorem trimmed_eq_iff : trimmed cs = t ↔ Trims cs t := by
  constructor
  · rintro rfl
    exact trims_trimmed cs
  · rintro ⟨ht, before, after, rfl, hb, ha⟩
    rw [trimmed_append_right ha, trimmed_append_left hb, ht.trimmed_eq]

/-! ## Separators -/

theorem notMem_of_mem_splitOn {x : Char} {part : List Char} (h : part ∈ cs.splitOn x) : x ∉ part := by
  induction cs generalizing part with
  | nil =>
      rw [List.splitOn_nil, List.mem_singleton] at h
      rw [h]
      exact List.not_mem_nil
  | cons c cs ih =>
      rw [List.splitOn_cons_eq_if_modifyHead] at h
      split at h
      · rcases List.mem_cons.mp h with rfl | h
        · exact List.not_mem_nil
        · exact ih h
      · next hc =>
        cases hs : cs.splitOn x with
        | nil => exact absurd hs (List.splitOn_ne_nil x cs)
        | cons first rest =>
            rw [hs, List.modifyHead_cons] at h
            rcases List.mem_cons.mp h with rfl | h
            · refine List.not_mem_cons_of_ne_of_not_mem (fun hx => hc ?_) (ih (hs ▸ List.mem_cons_self))
              exact beq_iff_eq.mpr hx.symm
            · exact ih (hs ▸ List.mem_cons_of_mem _ h)

/-- The parts of a text are those that give the text with separators between them, and have no separator in them. -/
theorem splitOn_eq_iff {x : Char} {parts : List (List Char)} (hp : parts ≠ []) :
    cs.splitOn x = parts ↔ [x].intercalate parts = cs ∧ ∀ part ∈ parts, x ∉ part := by
  constructor
  · rintro rfl
    exact ⟨List.intercalate_splitOn x, fun _ => notMem_of_mem_splitOn⟩
  · rintro ⟨rfl, h⟩
    exact List.splitOn_intercalate x h hp

/-- A joined text has the characters of the separator and of the parts. -/
theorem mem_or_mem_of_mem_intercalate {c : Char} {parts : List (List Char)} (h : c ∈ cs.intercalate parts) :
    c ∈ cs ∨ ∃ part ∈ parts, c ∈ part := by
  induction parts with
  | nil => simp at h
  | cons part parts ih =>
      cases parts with
      | nil =>
          rw [List.intercalate_singleton] at h
          exact .inr ⟨part, List.mem_cons_self, h⟩
      | cons next parts =>
          rw [List.intercalate_cons_cons, List.mem_append, List.mem_append] at h
          rcases h with (h | h) | h
          · exact .inr ⟨part, List.mem_cons_self, h⟩
          · exact .inl h
          · exact (ih h).imp_right fun ⟨p, hp, hc⟩ => ⟨p, List.mem_cons_of_mem _ hp, hc⟩

/-! ## Numbers -/

def AreDigits (ds : List Char) : Prop := ds ≠ [] ∧ ∀ c ∈ ds, c.isDigit = true

/-- The text writes the number in decimal digits, behind a plus sign or none. -/
def Numeral (cs : List Char) (n : Nat) : Prop :=
  ∃ ds, AreDigits ds ∧ (cs = ds ∨ cs = '+' :: ds) ∧ Nat.ofDigitChars 10 ds 0 = n

theorem AreDigits.head?_ne_plus (h : AreDigits ds) : ds.head? ≠ some '+' := by
  intro hp
  have hd := h.2 _ (List.mem_of_head? hp)
  exact absurd hd (by decide)

theorem natural?_eq_some_iff : natural? cs = some n ↔ Numeral cs n ∧ n < naturalBound := by
  have hdigits (ds : List Char) :
      (if ds.isEmpty || !ds.all Char.isDigit then none
        else (some (Nat.ofDigitChars 10 ds 0)).filter (· < naturalBound)) = some n ↔
      AreDigits ds ∧ Nat.ofDigitChars 10 ds 0 = n ∧ n < naturalBound := by
    by_cases hds : AreDigits ds
    · have hall := List.all_eq_true.mpr hds.2
      rw [if_neg (by simp [hds.1, hall])]
      simp only [Option.filter_eq_some_iff, Option.some.injEq, decide_eq_true_eq, hds, true_and]
    · rw [if_pos]
      · exact iff_of_false nofun fun h => hds h.1
      · rw [AreDigits, not_and_or, not_not] at hds
        rcases hds with rfl | hds
        · rfl
        · have hall : ds.all Char.isDigit = false := by
            rw [← Bool.not_eq_true, List.all_eq_true]
            exact hds
          simp [hall]
  unfold natural?
  simp only [hdigits]
  constructor
  · rintro ⟨hds, rfl, hn⟩
    refine ⟨⟨_, hds, ?_, rfl⟩, hn⟩
    split
    · exact .inr rfl
    · exact .inl rfl
  · rintro ⟨⟨ds, hds, rfl | rfl, rfl⟩, hn⟩
    · split
      · exact absurd rfl hds.head?_ne_plus
      · exact ⟨hds, rfl, hn⟩
    · exact ⟨hds, rfl, hn⟩

theorem areDigits_toDigits (n : Nat) : AreDigits (Nat.toDigits 10 n) :=
  ⟨Nat.toDigits_ne_nil, fun _ hc => Nat.isDigit_of_mem_toDigits (by decide) (by decide) hc⟩

theorem numeral_toDigits (n : Nat) : Numeral (Nat.toDigits 10 n) n :=
  ⟨_, areDigits_toDigits n, .inl rfl, Nat.ofDigitChars_toDigits (by decide) (by decide)⟩

end NodeGroups.Text
