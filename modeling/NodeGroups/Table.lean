/-! Tables keyed by text. Every key stands once and the entries ascend, so tables with the same look-ups are equal. -/
namespace NodeGroups

/-- A finite map from texts, held as its entries in ascending order of key. -/
structure Table (α : Type) where
  entries : List (String × α) := []
  ascending : entries.Pairwise (·.1 < ·.1) := by exact .nil

namespace Table
variable {α β : Type}

def empty : Table α where

instance : EmptyCollection (Table α) := ⟨empty⟩

instance : Inhabited (Table α) := ⟨empty⟩

def get? (t : Table α) (k : String) : Option α := t.entries.lookup k

def contains (t : Table α) (k : String) : Bool := (t.get? k).isSome

def keys (t : Table α) : List String := t.entries.map (·.1)

def values (t : Table α) : List α := t.entries.map (·.2)

def size (t : Table α) : Nat := t.entries.length

/-- The entries with `k` bound to `v`, in ascending order if they ascend. -/
def place (k : String) (v : α) : List (String × α) → List (String × α)
  | [] => [(k, v)]
  | (a, x) :: rest =>
    if k < a then (k, v) :: (a, x) :: rest
    else if k = a then (k, v) :: rest
    else (a, x) :: place k v rest

theorem mem_place {k : String} {v : α} {e : String × α} :
    {l : List (String × α)} → e ∈ place k v l → e = (k, v) ∨ e ∈ l
  | [], h => by simpa [place] using h
  | (a, x) :: rest, h => by
    unfold place at h
    split at h
    · simpa using h
    · split at h
      · rcases List.mem_cons.1 h with h | h
        · exact .inl h
        · exact .inr (List.mem_cons_of_mem _ h)
      · rcases List.mem_cons.1 h with h | h
        · exact .inr (h ▸ List.mem_cons_self)
        · exact (mem_place h).imp_right (List.mem_cons_of_mem _)

theorem place_ascending (k : String) (v : α) :
    {l : List (String × α)} → l.Pairwise (·.1 < ·.1) → (place k v l).Pairwise (·.1 < ·.1)
  | [], _ => by simp [place]
  | (a, x) :: rest, h => by
    have hr := List.pairwise_cons.1 h
    unfold place
    split
    · next hk =>
      refine List.pairwise_cons.2 ⟨fun e he => ?_, h⟩
      rcases List.mem_cons.1 he with rfl | he
      · exact hk
      · exact String.lt_trans hk (hr.1 e he)
    · split
      · next hk => exact List.pairwise_cons.2 ⟨fun e he => hk ▸ hr.1 e he, hr.2⟩
      · next hlt hne =>
        refine List.pairwise_cons.2 ⟨fun e he => ?_, place_ascending k v hr.2⟩
        rcases mem_place he with rfl | he
        · exact (Std.lt_trichotomy k a).resolve_left hlt |>.resolve_left hne
        · exact hr.1 e he

/-- Binds `k` to `v`, whether or not it was bound. -/
def insert (t : Table α) (k : String) (v : α) : Table α where
  entries := place k v t.entries
  ascending := place_ascending k v t.ascending

/-- The last entry of a key wins. -/
def ofList (es : List (String × α)) : Table α := es.foldl (fun t e => t.insert e.1 e.2) empty

def filter (p : String → α → Bool) (t : Table α) : Table α where
  entries := t.entries.filter fun e => p e.1 e.2
  ascending := t.ascending.filter _

def map (f : String → α → β) (t : Table α) : Table β where
  entries := t.entries.map fun e => (e.1, f e.1 e.2)
  ascending := t.ascending.map _ fun _ _ h => h

/-- The first value in key order that satisfies `p`. -/
def find? (p : α → Bool) (t : Table α) : Option α := t.values.find? p

/-! ## Look-ups -/

theorem lookup_cons (a j : String) (x : α) (l : List (String × α)) :
    ((a, x) :: l).lookup j = if j = a then some x else l.lookup j := by
  by_cases h : j = a
  · simp [h]
  · simp [List.lookup_cons, h, beq_false_of_ne h]

/-- Below the first key there is no entry. -/
theorem lookup_below {j : String} :
    {l : List (String × α)} → (∀ e ∈ l, j < e.1) → l.lookup j = none
  | [], _ => rfl
  | (a, x) :: rest, h => by
    have ha : j < a := h (a, x) List.mem_cons_self
    have hne : j ≠ a := fun e => String.lt_irrefl a (e ▸ ha)
    rw [lookup_cons, if_neg hne, lookup_below fun e he => h e (List.mem_cons_of_mem _ he)]

theorem lookup_place (k j : String) (v : α) :
    (l : List (String × α)) → (place k v l).lookup j = if j = k then some v else l.lookup j
  | [] => lookup_cons ..
  | (a, x) :: rest => by
    unfold place
    split
    · exact lookup_cons ..
    · split
      · next hk => subst hk; simp only [lookup_cons]; split <;> rfl
      · next hne =>
        rw [lookup_cons, lookup_cons, lookup_place k j v rest]
        by_cases hja : j = a
        · have : ¬ j = k := fun e => hne (e ▸ hja)
          simp [hja, Ne.symm hne]
        · simp [hja]

theorem lookup_filter (p : String → α → Bool) (j : String) :
    {l : List (String × α)} → l.Pairwise (·.1 < ·.1) →
      (l.filter fun e => p e.1 e.2).lookup j = (l.lookup j).filter (p j)
  | [], _ => rfl
  | (a, x) :: rest, h => by
    have hr := List.pairwise_cons.1 h
    have ih := lookup_filter p j hr.2
    rw [List.filter_cons, lookup_cons]
    by_cases hja : j = a
    · subst hja
      have hb : rest.lookup j = none := lookup_below hr.1
      rw [if_pos rfl]
      by_cases hp : p j x = true
      · rw [if_pos hp, lookup_cons, if_pos rfl]; simp [Option.filter, hp]
      · rw [if_neg hp, ih, hb]; simp [Option.filter, hp]
    · rw [if_neg hja]
      split
      · rw [lookup_cons, if_neg hja, ih]
      · exact ih

theorem lookup_map (f : String → α → β) (j : String) :
    (l : List (String × α)) → (l.map fun e => (e.1, f e.1 e.2)).lookup j = (l.lookup j).map (f j)
  | [] => rfl
  | (a, x) :: rest => by
    rw [List.map_cons, lookup_cons, lookup_cons, lookup_map f j rest]
    split <;> simp_all

@[simp] theorem get?_empty (k : String) : (empty : Table α).get? k = none := rfl

theorem get?_insert (t : Table α) (k j : String) (v : α) :
    (t.insert k v).get? j = if j = k then some v else t.get? j :=
  lookup_place k j v t.entries

theorem get?_filter (p : String → α → Bool) (t : Table α) (k : String) :
    (t.filter p).get? k = (t.get? k).filter (p k) :=
  lookup_filter p k t.ascending

theorem get?_map (f : String → α → β) (t : Table α) (k : String) :
    (t.map f).get? k = (t.get? k).map (f k) :=
  lookup_map f k t.entries

/-- Ascending entries are determined by their look-ups. -/
theorem entries_eq_of_lookup_eq :
    {l m : List (String × α)} → l.Pairwise (·.1 < ·.1) → m.Pairwise (·.1 < ·.1) →
      (∀ k, l.lookup k = m.lookup k) → l = m
  | [], [], _, _, _ => rfl
  | [], (a, x) :: m, _, _, h => by simpa [lookup_cons] using h a
  | (a, x) :: l, [], _, _, h => by simpa [lookup_cons] using h a
  | (a, x) :: l, (b, y) :: m, hl, hm, h => by
    have hl' := List.pairwise_cons.1 hl
    have hm' := List.pairwise_cons.1 hm
    have hab : a = b := by
      rcases Std.lt_trichotomy a b with hlt | heq | hgt
      · have := h a
        rw [lookup_below (l := (b, y) :: m) (by
          intro e he
          rcases List.mem_cons.1 he with rfl | he
          · exact hlt
          · exact String.lt_trans hlt (hm'.1 e he))] at this
        simp at this
      · exact heq
      · have := h b
        rw [lookup_below (l := (a, x) :: l) (by
          intro e he
          rcases List.mem_cons.1 he with rfl | he
          · exact hgt
          · exact String.lt_trans hgt (hl'.1 e he))] at this
        simp at this
    subst hab
    have hxy : x = y := by simpa [lookup_cons] using h a
    subst hxy
    rw [entries_eq_of_lookup_eq hl'.2 hm'.2 fun k => ?_]
    by_cases hk : k = a
    · subst hk; rw [lookup_below hl'.1, lookup_below hm'.1]
    · simpa [lookup_cons, hk] using h k

theorem ext_get? {s t : Table α} (h : ∀ k, s.get? k = t.get? k) : s = t := by
  have := entries_eq_of_lookup_eq s.ascending t.ascending h
  cases s; cases t; simp_all

end Table
end NodeGroups
