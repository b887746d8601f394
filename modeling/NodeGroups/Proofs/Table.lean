import Mathlib.Data.Finset.Card
import NodeGroups.Table

/-!
# Entries, keys and sizes of tables

A table is known by its look-ups (`Table.ext_get?`). Here the entries, the keys, the size and the number of values with
a property are read off them, and insertions in a row are looked up.
-/

namespace NodeGroups.Table

variable {α β : Type}

/-! ## Entries and keys -/

theorem lookup_eq_some_iff {k : String} {v : α} :
    {l : List (String × α)} → l.Pairwise (·.1 < ·.1) → (l.lookup k = some v ↔ (k, v) ∈ l)
  | [], _ => by simp
  | (a, x) :: rest, h => by
      have hr := List.pairwise_cons.1 h
      rw [lookup_cons, List.mem_cons]
      by_cases hk : k = a
      · subst hk
        have hn : (k, v) ∉ rest := fun hm => String.lt_irrefl k (hr.1 _ hm)
        simp [hn, eq_comm]
      · simp [hk, lookup_eq_some_iff hr.2]

theorem mem_entries_iff {t : Table α} {k : String} {v : α} : (k, v) ∈ t.entries ↔ t.get? k = some v :=
  (lookup_eq_some_iff t.ascending).symm

theorem contains_iff {t : Table α} {k : String} : t.contains k = true ↔ ∃ v, t.get? k = some v :=
  Option.isSome_iff_exists

theorem contains_eq_false_iff {t : Table α} {k : String} : t.contains k = false ↔ t.get? k = none := by
  simp [contains]

/-- Tables without values of their own are known by their keys. -/
theorem ext_contains {s t : Table Unit} (h : ∀ k, s.contains k = true ↔ t.contains k = true) : s = t := by
  refine ext_get? fun k => ?_
  have hk := h k
  simp only [contains_iff] at hk
  cases hs : s.get? k with
  | none => cases ht : t.get? k <;> simp_all
  | some _ => cases ht : t.get? k <;> simp_all

theorem contains_insert_iff {t : Table α} {k j : String} {v : α} :
    (t.insert k v).contains j = true ↔ j = k ∨ t.contains j = true := by
  rw [contains, get?_insert]
  by_cases h : j = k <;> simp [h, contains]

theorem contains_filter_iff {t : Table α} {p : String → α → Bool} {k : String} :
    (t.filter p).contains k = true ↔ ∃ v, t.get? k = some v ∧ p k v = true := by
  simp only [contains_iff, get?_filter, Option.filter_eq_some_iff]

theorem mem_keys_iff {t : Table α} {k : String} : k ∈ t.keys ↔ t.contains k = true := by
  simp only [keys, List.mem_map, contains_iff, ← mem_entries_iff]
  constructor
  · rintro ⟨⟨a, x⟩, hm, rfl⟩
    exact ⟨x, hm⟩
  · rintro ⟨v, hm⟩
    exact ⟨(k, v), hm, rfl⟩

theorem keys_nodup (t : Table α) : t.keys.Nodup := by
  refine List.pairwise_map.2 (t.ascending.imp fun {a b} hab he => ?_)
  rw [he] at hab
  exact String.lt_irrefl _ hab

@[simp] theorem length_keys (t : Table α) : t.keys.length = t.size := List.length_map _

theorem size_eq_card {t : Table α} {s : Finset String} (h : ∀ k, t.contains k = true ↔ k ∈ s) : t.size = s.card := by
  have hs : t.keys.toFinset = s := by
    ext k
    rw [List.mem_toFinset, mem_keys_iff, h]
  rw [← hs, List.toFinset_card_of_nodup t.keys_nodup, keys, List.length_map, size]

/-! ## Insertions in a row -/

theorem lookup_eq_none_of_notMem {k : String} :
    {l : List (String × α)} → k ∉ l.map (·.1) → l.lookup k = none
  | [], _ => rfl
  | (a, x) :: rest, h => by
      rw [List.map_cons, List.mem_cons, not_or] at h
      rw [lookup_cons, if_neg h.1, lookup_eq_none_of_notMem h.2]

theorem lookup_eq_some_of_mem {k : String} {v : α} :
    {l : List (String × α)} → (l.map (·.1)).Nodup → (k, v) ∈ l → l.lookup k = some v
  | (a, x) :: rest, hn, h => by
      rw [List.map_cons, List.nodup_cons] at hn
      rw [lookup_cons]
      rcases List.mem_cons.mp h with he | h
      · cases he
        exact if_pos rfl
      · have hka : k ≠ a := fun he => hn.1 (List.mem_map.mpr ⟨(k, v), h, he⟩)
        rw [if_neg hka, lookup_eq_some_of_mem hn.2 h]

/-- Among entries with different keys the order does not matter. -/
theorem lookup_eq_of_perm {l l' : List (String × α)} (h : l.Perm l') (hn : (l.map (·.1)).Nodup) (k : String) :
    l.lookup k = l'.lookup k := by
  induction h with
  | nil => rfl
  | cons e _ ih =>
      rw [List.map_cons, List.nodup_cons] at hn
      rw [lookup_cons, lookup_cons, ih hn.2]
  | swap e e' _ =>
      obtain ⟨a, x⟩ := e
      obtain ⟨b, y⟩ := e'
      have hab : a ≠ b := fun he => by simp [he] at hn
      simp only [lookup_cons]
      by_cases ha : k = a
      · simp [ha, hab]
      · simp [ha]
  | trans h _ ih ih' => exact (ih hn).trans (ih' ((h.map _).nodup_iff.mp hn))

/-- Of entries with different keys, each is found after all have been inserted. -/
theorem get?_foldl_insert (f : String → α → β) (k : String) :
    (l : List (String × α)) → (l.map (·.1)).Nodup → (t : Table β) →
      (l.foldl (fun t e => t.insert e.1 (f e.1 e.2)) t).get? k = ((l.lookup k).map (f k)).or (t.get? k)
  | [], _, t => by simp
  | (a, x) :: rest, h, t => by
      rw [List.map_cons, List.nodup_cons] at h
      rw [List.foldl_cons, get?_foldl_insert f k rest h.2, get?_insert, lookup_cons]
      by_cases hk : k = a
      · subst hk
        simp [lookup_eq_none_of_notMem h.1]
      · simp [hk]

theorem contains_foldl_insert_unit (p : String → Bool) (k : String) (ids : List String) (t : Table Unit) :
    (ids.foldl (fun t id => if p id then t.insert id () else t) t).contains k = true ↔
      t.contains k = true ∨ k ∈ ids ∧ p k = true := by
  induction ids generalizing t with
  | nil => simp
  | cons a rest ih =>
      rw [List.foldl_cons, ih, List.mem_cons]
      by_cases hk : k = a
      · subst hk
        by_cases hp : p k = true <;> simp [hp, contains, get?_insert]
      · by_cases hp : p a = true <;> simp [hp, hk, contains, get?_insert]

/-! ## Counting values -/

theorem countP_place (p : α → Bool) (k : String) (v : α) :
    {l : List (String × α)} → l.Pairwise (·.1 < ·.1) →
      (place k v l).countP (fun e => p e.2) + (l.lookup k).toList.countP p =
        l.countP (fun e => p e.2) + [v].countP p
  | [], _ => by simp [place]
  | (a, x) :: rest, h => by
      have hr := List.pairwise_cons.1 h
      unfold place
      split
      · next hk =>
        have hb : ((a, x) :: rest).lookup k = none := lookup_below fun e he => by
          rcases List.mem_cons.1 he with rfl | he
          · exact hk
          · exact String.lt_trans hk (hr.1 e he)
        rw [hb]
        simp [List.countP_cons]
      · split
        · next hk =>
          subst hk
          simp only [lookup_cons, List.countP_cons, List.countP_nil, if_true, Option.toList_some]
          omega
        · next hk =>
          have ih := countP_place p k v hr.2
          simp only [lookup_cons, if_neg hk, List.countP_cons]
          simp only [List.countP_cons] at ih
          omega

/-- What an insertion does to the number of values with a property: the old value of the key no longer counts, and the
new one does. -/
theorem countP_values_insert (p : α → Bool) (t : Table α) (k : String) (v : α) :
    (t.insert k v).values.countP p + (t.get? k).toList.countP p = t.values.countP p + [v].countP p := by
  simp only [values, List.countP_map]
  exact countP_place p k v t.ascending

/-- What a table lacks it still lacks after an insertion under another key. -/
theorem get?_insert_eq_none {t : Table α} {k : String} {v : α} {l : List (String × β)} (hk : k ∉ l.map (·.1))
    (hl : ∀ e ∈ l, t.get? e.1 = none) : ∀ e ∈ l, (t.insert k v).get? e.1 = none := by
  intro e he
  have hne : e.1 ≠ k := fun h => hk (List.mem_map.mpr ⟨e, he, h⟩)
  rw [get?_insert, if_neg hne]
  exact hl e he

/-- New values without the property do not count. -/
theorem countP_values_foldl_insert (p : β → Bool) (f : String → α → β) (hf : ∀ k x, p (f k x) = false) :
    {l : List (String × α)} → {t : Table β} → (l.map (·.1)).Nodup → (∀ e ∈ l, t.get? e.1 = none) →
      (l.foldl (fun t e => t.insert e.1 (f e.1 e.2)) t).values.countP p = t.values.countP p
  | [], _, _, _ => rfl
  | (a, x) :: rest, t, hn, hl => by
      rw [List.map_cons, List.nodup_cons] at hn
      have hr := get?_insert_eq_none (v := f a x) hn.1 fun e he => hl e (List.mem_cons_of_mem _ he)
      have hi := countP_values_insert p t a (f a x)
      rw [hl (a, x) List.mem_cons_self] at hi
      rw [List.foldl_cons, countP_values_foldl_insert p f hf hn.2 hr]
      simpa [hf] using hi

/-! ## Sizes after insertions -/

theorem size_insert_of_get?_eq_none {t : Table α} {k : String} (h : t.get? k = none) (v : α) :
    (t.insert k v).size = t.size + 1 := by
  have hi := t.countP_values_insert (fun _ => true) k v
  simpa [h, values, size] using hi

/-- New entries with different keys add their number to the size. -/
theorem size_foldl_insert (f : String → α → β) :
    {l : List (String × α)} → {t : Table β} → (l.map (·.1)).Nodup → (∀ e ∈ l, t.get? e.1 = none) →
      (l.foldl (fun t e => t.insert e.1 (f e.1 e.2)) t).size = t.size + l.length
  | [], _, _, _ => rfl
  | (a, x) :: rest, t, hn, hl => by
      rw [List.map_cons, List.nodup_cons] at hn
      have hr := get?_insert_eq_none (v := f a x) hn.1 fun e he => hl e (List.mem_cons_of_mem _ he)
      rw [List.foldl_cons, size_foldl_insert f hn.2 hr, size_insert_of_get?_eq_none (hl (a, x) List.mem_cons_self),
        List.length_cons, Nat.add_right_comm, Nat.add_assoc]

end NodeGroups.Table
