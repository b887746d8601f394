import Mathlib.Data.List.Nodup
import NodeGroups.Proofs.Json.Records

/-!
# What a reading tells

A record with known fields gives each of them at most once, and a record with keys of any name lists an entry for each key.
Here this is said of what has been read, without any decoder, and shown to be all that decoders find. Main statements:
`record_eq_ok_iff` and `entries_eq_ok_iff`.
-/

namespace NodeGroups.Json

/-! ## Readings -/

namespace Reading

variable {α β : Type} {names : List String} {given : List (String × Reading)}

/-- The members give these fields, each at most once. Members of other names only have to be whole. -/
inductive MembersGive (names : List String) : List (Option String × Reading) → List (String × Reading) → Prop
  | nil : MembersGive names [] []
  | field {k v ms given} : k ∈ names → k ∉ given.map (·.1) → MembersGive names ms given →
      MembersGive names ((some k, v) :: ms) ((k, v) :: given)
  | other {k v ms given} : k ∉ names → v.whole = true → MembersGive names ms given →
      MembersGive names ((some k, v) :: ms) given

/-- A record gives fields by their names, and a list by their places. -/
inductive Gives (names : List String) : Reading → List (String × Reading) → Prop
  | record {ms given} : MembersGive names ms given → Gives names (.record ms true) given
  | list {items} : items.length ≤ names.length → Gives names (.list items true) (names.zip items)

/-- What the field tells if it is given, and else what there is at the start. -/
def Finds (given : List (String × Reading)) (name : String) (tells : Reading → β → Prop) (start b : β) : Prop :=
  match given.lookup name with
  | some v => tells v b
  | none => b = start

/-- The members of a record with keys of any name. Each of them tells something, and the last one of a key tells what its
entry is. -/
structure MembersList (tells : Reading → α → Prop) (ms : List (Option String × Reading)) (es : List (String × α)) :
    Prop where
  ascending : es.Pairwise (·.1 < ·.1)
  telling : ∀ m ∈ ms, ∃ k a, m.1 = some k ∧ tells m.2 a
  mem_iff : ∀ k a, (k, a) ∈ es ↔ ∃ v, ms.reverse.lookup (some k) = some v ∧ tells v a

def Lists (tells : Reading → α → Prop) (r : Reading) (es : List (String × α)) : Prop :=
  ∃ ms, r = .record ms true ∧ MembersList tells ms es

theorem MembersGive.keys {ms : List (Option String × Reading)} (h : MembersGive names ms given) :
    (∀ k ∈ given.map (·.1), k ∈ names) ∧ (given.map (·.1)).Nodup := by
  induction h with
  | nil => exact ⟨fun _ hk => absurd hk List.not_mem_nil, .nil⟩
  | field hk hg _ ih => exact ⟨List.forall_mem_cons.mpr ⟨hk, ih.1⟩, List.nodup_cons.mpr ⟨hg, ih.2⟩⟩
  | other _ _ _ ih => exact ih

theorem nodup_keys_zip {items : List Reading} (hn : names.Nodup) : ((names.zip items).map (·.1)).Nodup := by
  induction names generalizing items with
  | nil => exact .nil
  | cons k names ih =>
      cases items with
      | nil => exact .nil
      | cons v items =>
          rw [List.nodup_cons] at hn
          refine List.nodup_cons.mpr ⟨fun hk => hn.1 ?_, ih hn.2⟩
          obtain ⟨e, he, rfl⟩ := List.mem_map.mp hk
          exact (List.of_mem_zip he).1

theorem Gives.keys {r : Reading} (hn : names.Nodup) (h : Gives names r given) :
    (∀ k ∈ given.map (·.1), k ∈ names) ∧ (given.map (·.1)).Nodup := by
  cases h with
  | record h => exact h.keys
  | list h =>
      refine ⟨fun k hk => ?_, nodup_keys_zip hn⟩
      obtain ⟨e, he, rfl⟩ := List.mem_map.mp hk
      exact (List.of_mem_zip he).1

theorem MembersList.unique {tells : Reading → α → Prop} {ms : List (Option String × Reading)} {es es' : List (String × α)}
    (h : MembersList tells ms es) (h' : MembersList tells ms es') : es = es' := by
  refine Table.entries_eq_of_lookup_eq h.ascending h'.ascending fun k => Option.ext fun a => ?_
  rw [Table.lookup_eq_some_iff h.ascending, Table.lookup_eq_some_iff h'.ascending, h.mem_iff, h'.mem_iff]

theorem finds_congr {tells tells' : Reading → β → Prop} (h : ∀ v b, tells v b ↔ tells' v b) {name : String} {start b : β} :
    Finds given name tells start b ↔ Finds given name tells' start b := by
  rw [funext₂ fun v b => propext (h v b)]

theorem Finds.unique {tells : Reading → β → Prop} {name : String} {start b c : β}
    (hu : ∀ v b c, tells v b → tells v c → b = c) (hb : Finds given name tells start b)
    (hc : Finds given name tells start c) : b = c := by
  unfold Finds at hb hc
  cases hl : given.lookup name with
  | none =>
      rw [hl] at hb hc
      exact hb.trans hc.symm
  | some v =>
      rw [hl] at hb hc
      exact hu v b c hb hc

theorem lists_congr {tells tells' : Reading → α → Prop} (h : ∀ v a, tells v a ↔ tells' v a) {r : Reading}
    {es : List (String × α)} : Lists tells r es ↔ Lists tells' r es := by
  rw [funext₂ fun v a => propext (h v a)]

end Reading

namespace Decoder
open Reading (Finds Gives Lists MembersGive MembersList)

variable {α β : Type} {fields : List (Field α)} {d : Nat} {given : List (String × Reading)} {a b : α}

/-! ## Fields in a row -/

/-- The values are put into place one after another. -/
inductive Puts (fields : List (Field α)) (d : Nat) : List (String × Reading) → α → α → Prop
  | nil {x} : Puts fields d [] x x
  | cons {f v given x y z} : f ∈ fields → f.put d v x = .ok y → Puts fields d given y z →
      Puts fields d ((f.name, v) :: given) x z

theorem puts_cons_iff (hn : (fields.map (·.name)).Nodup) {f : Field α} (hf : f ∈ fields) {v : Reading} :
    Puts fields d ((f.name, v) :: given) a b ↔ ∃ c, f.put d v a = .ok c ∧ Puts fields d given c b := by
  constructor
  · generalize hl : (f.name, v) :: given = l
    intro h
    cases h with
    | nil => cases hl
    | @cons g _ _ _ c _ hg hc hp =>
        obtain ⟨he, rfl⟩ := List.cons.inj hl
        obtain ⟨hname, rfl⟩ := Prod.mk.inj he
        obtain rfl := List.inj_on_of_nodup_map hn hf hg hname
        exact ⟨c, hc, hp⟩
  · rintro ⟨c, hc, hp⟩
    exact .cons hf hc hp

theorem find?_of_mem (hn : (fields.map (·.name)).Nodup) {f : Field α} (hf : f ∈ fields) :
    fields.find? (·.name == f.name) = some f := by
  cases hg : fields.find? (·.name == f.name) with
  | none => exact absurd (beq_self_eq_true f.name) (List.find?_eq_none.mp hg f hf)
  | some g =>
      have he : g.name = f.name := by simpa using List.find?_some hg
      rw [List.inj_on_of_nodup_map hn (List.mem_of_find?_eq_some hg) hf he]

theorem find?_eq_none_iff {k : String} : fields.find? (·.name == k) = none ↔ k ∉ fields.map (·.name) := by
  simp [List.find?_eq_none]

/-- A member is that of a field which has not been read yet, or a whole one of another name. -/
theorem member_eq_ok_iff (hn : (fields.map (·.name)).Nodup) {read : List String} {m : Option String × Reading}
    {x : List String × α} :
    member fields d (read, a) m = .ok x ↔
      (∃ f ∈ fields, ∃ b, m.1 = some f.name ∧ f.name ∉ read ∧ f.put d m.2 a = .ok b ∧ x = (f.name :: read, b)) ∨
        ∃ k, m.1 = some k ∧ k ∉ fields.map (·.name) ∧ m.2.whole = true ∧ x = (read, a) := by
  obtain ⟨_ | k, v⟩ := m
  · simp [member]
  · by_cases hk : k ∈ fields.map (·.name)
    · obtain ⟨f, hf, rfl⟩ := List.mem_map.mp hk
      simp only [member, find?_of_mem hn hf]
      constructor
      · intro h
        split at h
        · cases h
        · next hr =>
          obtain ⟨b, hb, h⟩ := Except.bind_eq_ok_iff.mp h
          cases h
          exact .inl ⟨f, hf, b, rfl, hr, hb, rfl⟩
      · rintro (⟨g, hg, b, hgk, hr, hb, rfl⟩ | ⟨k, hfk, hk', -⟩)
        · cases List.inj_on_of_nodup_map hn hf hg (Option.some.inj hgk)
          rw [if_neg hr, hb]
          rfl
        · cases hfk
          exact absurd hk hk'
    · simp only [member, find?_eq_none_iff.mpr hk]
      constructor
      · intro h
        split at h <;> cases h
        next hw => exact .inr ⟨k, rfl, hk, hw, rfl⟩
      · rintro (⟨g, hg, -, hgk, -⟩ | ⟨k', -, -, hw, rfl⟩)
        · cases hgk
          exact absurd (List.mem_map_of_mem hg) hk
        · exact if_pos hw

theorem exists_of_foldlM_member (hn : (fields.map (·.name)).Nodup) {ms : List (Option String × Reading)}
    {read read' : List String} (h : ms.foldlM (member fields d) (read, a) = .ok (read', b)) :
    ∃ given, MembersGive (fields.map (·.name)) ms given ∧ (∀ k ∈ given.map (·.1), k ∉ read) ∧ Puts fields d given a b := by
  induction ms generalizing read a with
  | nil =>
      cases h
      exact ⟨[], .nil, fun _ hk => absurd hk List.not_mem_nil, .nil⟩
  | cons m ms ih =>
      obtain ⟨x, hx, hms⟩ := Except.bind_eq_ok_iff.mp h
      obtain ⟨k, v⟩ := m
      rcases (member_eq_ok_iff hn).mp hx with ⟨f, hf, c, hk, hr, hc, rfl⟩ | ⟨k, hk, hu, hw, rfl⟩
      · cases hk
        obtain ⟨given, hg, hd, hp⟩ := ih hms
        refine ⟨_, .field (List.mem_map_of_mem hf) (fun hm => hd _ hm List.mem_cons_self) hg, ?_, .cons hf hc hp⟩
        exact List.forall_mem_cons.mpr ⟨hr, fun j hj => List.not_mem_of_not_mem_cons (hd j hj)⟩
      · cases hk
        obtain ⟨given, hg, hd, hp⟩ := ih hms
        exact ⟨given, .other hu hw hg, hd, hp⟩

theorem foldlM_member_of_gives (hn : (fields.map (·.name)).Nodup) {ms : List (Option String × Reading)}
    (hg : MembersGive (fields.map (·.name)) ms given) {read : List String} (hd : ∀ k ∈ given.map (·.1), k ∉ read)
    (hp : Puts fields d given a b) : ∃ read', ms.foldlM (member fields d) (read, a) = .ok (read', b) := by
  induction hg generalizing read a with
  | nil =>
      cases hp
      exact ⟨read, rfl⟩
  | @field k v ms given _ hnew _ ih =>
      cases hp with
      | @cons f _ _ _ c _ hf hc hp =>
          obtain ⟨hr, hd⟩ := List.forall_mem_cons.mp hd
          have hm : member fields d (read, a) (some f.name, v) = .ok (f.name :: read, c) :=
            (member_eq_ok_iff hn).mpr (.inl ⟨f, hf, c, rfl, hr, hc, rfl⟩)
          rw [Except.foldlM_cons_of_ok hm]
          refine ih (fun j hj => ?_) hp
          rw [List.mem_cons, not_or]
          exact ⟨fun he => hnew (he ▸ hj), hd j hj⟩
  | @other k v ms given hk hw _ ih =>
      have hm : member fields d (read, a) (some k, v) = .ok (read, a) :=
        (member_eq_ok_iff hn).mpr (.inr ⟨k, rfl, hk, hw, rfl⟩)
      rw [Except.foldlM_cons_of_ok hm]
      exact ih hd hp

theorem atEnd_eq_ok_iff {closed : Bool} : atEnd closed a = .ok b ↔ closed = true ∧ a = b := by
  cases closed <;> simp [atEnd]

/-- No field has to be given. -/
theorem inOrder_eq_ok_iff {closed : Bool} (hn : (fields.map (·.name)).Nodup) (hreq : ∀ f ∈ fields, f.required = false) :
    {fs : List (Field α)} → (∀ f ∈ fs, f ∈ fields) → {vs : List Reading} → {a : α} →
      (inOrder closed d fs vs a = .ok b ↔
        closed = true ∧ vs.length ≤ fs.length ∧ Puts fields d ((fs.map (·.name)).zip vs) a b)
  | fs, hf, [], a => by
      have hany : fs.any (·.required) = false := List.any_eq_false.mpr fun f hm => by simp [hreq f (hf f hm)]
      have ho : inOrder closed d fs [] a = atEnd closed a := by
        cases fs <;> simp only [inOrder, hany, Bool.and_false, Bool.false_eq_true, if_false]
      rw [ho, atEnd_eq_ok_iff, List.zip_nil_right, List.length_nil, and_iff_right (Nat.zero_le _)]
      refine and_congr_right fun _ => ⟨fun h => h ▸ .nil, fun h => ?_⟩
      cases h
      rfl
  | [], _, v :: vs, a => by simp [inOrder]
  | f :: fs, hf, v :: vs, a => by
      obtain ⟨hmem, hfs⟩ := List.forall_mem_cons.mp hf
      rw [inOrder, Except.bind_eq_ok_iff, List.length_cons, List.length_cons, Nat.add_le_add_iff_right]
      rw [List.map_cons, List.zip_cons_cons, puts_cons_iff hn hmem]
      constructor
      · rintro ⟨c, hc, h⟩
        obtain ⟨hcl, hle, hp⟩ := (inOrder_eq_ok_iff hn hreq hfs).mp h
        exact ⟨hcl, hle, c, hc, hp⟩
      · rintro ⟨hcl, hle, c, hc, hp⟩
        exact ⟨c, hc, (inOrder_eq_ok_iff hn hreq hfs).mpr ⟨hcl, hle, hp⟩⟩

theorem record_iff_puts (hn : (fields.map (·.name)).Nodup) (hreq : ∀ f ∈ fields, f.required = false) {start : α}
    {r : Reading} :
    record fields start (d + 1) r = .ok a ↔ ∃ given, Gives (fields.map (·.name)) r given ∧ Puts fields d given start a := by
  cases r with
  | record ms closed =>
      have hany (given : List String) : (fields.any fun f => f.required && !given.contains f.name) = false :=
        List.any_eq_false.mpr fun f hm => by simp [hreq f hm]
      simp only [record, Except.bind_eq_ok_iff, hany, Bool.and_false, Bool.false_eq_true, if_false, atEnd_eq_ok_iff]
      constructor
      · rintro ⟨⟨read, b⟩, h, rfl, rfl⟩
        obtain ⟨given, hg, -, hp⟩ := exists_of_foldlM_member hn h
        exact ⟨given, .record hg, hp⟩
      · rintro ⟨given, hg, hp⟩
        cases hg with
        | record hg =>
            obtain ⟨read, h⟩ := foldlM_member_of_gives hn hg (fun _ _ => List.not_mem_nil) hp
            exact ⟨_, h, rfl, rfl⟩
  | list items closed =>
      rw [record, inOrder_eq_ok_iff hn hreq fun _ hf => hf]
      constructor
      · rintro ⟨rfl, hle, hp⟩
        exact ⟨_, .list (by simpa using hle), hp⟩
      · rintro ⟨given, hg, hp⟩
        cases hg with
        | list hle => exact ⟨rfl, by simpa using hle, hp⟩
  | null | bool | num | str | broken =>
      constructor
      · intro h
        cases h
      · rintro ⟨_, hg, -⟩
        cases hg

/-! ## Parts of a value -/

/-- A field that is decoded on its own, and the part of the value where it is put. -/
structure Facet (α : Type) where
  {part : Type}
  name : String
  value : Decoder part
  set : part → α → α
  get : α → part

def Facet.field (F : Facet α) : Field α := Decoder.field F.name F.value F.set

/-- The parts do not touch each other, and make up the whole value. -/
structure Facet.Cover (Fs : List (Facet α)) : Prop where
  nodup : (Fs.map (·.name)).Nodup
  get_set : ∀ F ∈ Fs, ∀ x a, F.get (F.set x a) = x
  get_set_other : ∀ F ∈ Fs, ∀ G ∈ Fs, G.name ≠ F.name → ∀ x a, F.get (G.set x a) = F.get a
  ext : ∀ a b, (∀ F ∈ Fs, F.get a = F.get b) → a = b

variable {Fs : List (Facet α)}

theorem Facet.put_eq_ok_iff {F : Facet α} {v : Reading} :
    F.field.put d v a = .ok b ↔ ∃ x, F.value d v = .ok x ∧ F.set x a = b := by
  simp only [Facet.field, Decoder.field, Except.bind_eq_ok_iff]
  exact exists_congr fun x => and_congr_right fun _ => ⟨fun h => by cases h; rfl, fun h => h ▸ rfl⟩

theorem Facet.map_name : (Fs.map Facet.field).map (·.name) = Fs.map (·.name) := by
  rw [List.map_map]
  rfl

theorem Puts.finds (hc : Facet.Cover Fs) {fields : List (Field α)} (hf : fields = Fs.map Facet.field)
    (h : Puts fields d given a b) (hn : (given.map (·.1)).Nodup) {F : Facet α} (hF : F ∈ Fs) :
    Finds given F.name (fun v x => F.value d v = .ok x) (F.get a) (F.get b) := by
  induction h with
  | nil => rfl
  | @cons f v given x y z hfm hy _ ih =>
      rw [hf, List.mem_map] at hfm
      obtain ⟨G, hG, rfl⟩ := hfm
      obtain ⟨w, hw, rfl⟩ := Facet.put_eq_ok_iff.mp hy
      rw [List.map_cons, List.nodup_cons] at hn
      specialize ih hn.2
      unfold Finds at ih ⊢
      rw [Table.lookup_cons]
      by_cases he : F.name = G.field.name
      · -- the field is not given again, so its part stays
        obtain rfl := List.inj_on_of_nodup_map hc.nodup hF hG he
        rw [he, Table.lookup_eq_none_of_notMem hn.1, hc.get_set F hF] at ih
        rw [if_pos he]
        exact ih ▸ hw
      · rw [if_neg he]
        rwa [hc.get_set_other F hF G hG (Ne.symm he)] at ih

theorem exists_puts (h : ∀ e ∈ given, ∃ F ∈ Fs, F.name = e.1 ∧ ∃ x, F.value d e.2 = .ok x) (a : α) :
    ∃ b, Puts (Fs.map Facet.field) d given a b := by
  induction given generalizing a with
  | nil => exact ⟨a, .nil⟩
  | cons e given ih =>
      obtain ⟨⟨F, hF, he, x, hx⟩, h⟩ := List.forall_mem_cons.mp h
      obtain ⟨b, hb⟩ := ih h (F.set x a)
      obtain ⟨k, v⟩ := e
      cases he
      exact ⟨b, .cons (List.mem_map_of_mem hF) (Facet.put_eq_ok_iff.mpr ⟨x, hx, rfl⟩) hb⟩

/-- A record is decoded to the value whose parts are what the given fields tell. -/
theorem record_eq_ok_iff (hc : Facet.Cover Fs) {start : α} {r : Reading} :
    record (Fs.map Facet.field) start (d + 1) r = .ok a ↔ ∃ given, Gives (Fs.map (·.name)) r given ∧
      ∀ F ∈ Fs, Finds given F.name (fun v x => F.value d v = .ok x) (F.get start) (F.get a) := by
  have hreq : ∀ f ∈ Fs.map Facet.field, f.required = false := List.forall_mem_map.mpr fun _ _ => rfl
  rw [record_iff_puts (Facet.map_name ▸ hc.nodup) hreq, Facet.map_name]
  refine exists_congr fun given => and_congr_right fun hg => ?_
  obtain ⟨hsub, hn⟩ := hg.keys hc.nodup
  constructor
  · exact fun hp _ hF => hp.finds hc rfl hn hF
  · intro h
    have hgiven : ∀ e ∈ given, ∃ F ∈ Fs, F.name = e.1 ∧ ∃ x, F.value d e.2 = .ok x := by
      rintro ⟨k, v⟩ he
      obtain ⟨F, hF, rfl⟩ := List.mem_map.mp (hsub k (List.mem_map_of_mem he))
      have hx := h F hF
      rw [Finds, Table.lookup_eq_some_of_mem hn he] at hx
      exact ⟨F, hF, rfl, _, hx⟩
    obtain ⟨b, hb⟩ := exists_puts hgiven start
    have he : b = a := hc.ext b a fun F hF =>
      (hb.finds hc rfl hn hF).unique (fun _ _ _ hx hy => Except.ok.inj (hx.symm.trans hy)) (h F hF)
    exact he ▸ hb

/-! ## Keys of any name -/

theorem entry_eq_ok_iff {value : Decoder α} {es es' : List (String × α)} {m : Option String × Reading} :
    entry value d es m = .ok es' ↔ ∃ k a, m.1 = some k ∧ value d m.2 = .ok a ∧ es' = Table.place k a es := by
  obtain ⟨_ | k, v⟩ := m
  · simp [entry]
  · simp only [entry, Except.bind_eq_ok_iff]
    constructor
    · rintro ⟨a, ha, h⟩
      cases h
      exact ⟨k, a, rfl, ha, rfl⟩
    · rintro ⟨_, a, hk, ha, rfl⟩
      cases hk
      exact ⟨a, ha, rfl⟩

/-- Members are put into place just if each of them has a key and a value. -/
theorem exists_foldlM_entry {value : Decoder α} {ms : List (Option String × Reading)}
    (h : ∀ m ∈ ms, ∃ k a, m.1 = some k ∧ value d m.2 = .ok a) (es : List (String × α)) :
    ∃ es', ms.foldlM (entry value d) es = .ok es' := by
  induction ms generalizing es with
  | nil => exact ⟨es, rfl⟩
  | cons m ms ih =>
      obtain ⟨⟨k, a, hk, ha⟩, h⟩ := List.forall_mem_cons.mp h
      have hm : entry value d es m = .ok (Table.place k a es) := entry_eq_ok_iff.mpr ⟨k, a, hk, ha, rfl⟩
      rw [Except.foldlM_cons_of_ok hm]
      exact ih h _

theorem membersList_of_foldlM {value : Decoder α} {ms : List (Option String × Reading)} {es : List (String × α)}
    (h : ms.foldlM (entry value d) [] = .ok es) : MembersList (fun v a => value d v = .ok a) ms es := by
  induction ms using List.reverseRecOn generalizing es with
  | nil =>
      cases h
      exact ⟨.nil, fun _ hm => absurd hm List.not_mem_nil, by simp⟩
  | append_singleton ms m ih =>
      rw [List.foldlM_append] at h
      obtain ⟨es', hes, h⟩ := Except.bind_eq_ok_iff.mp h
      rw [List.foldlM_cons] at h
      obtain ⟨_, hm, h⟩ := Except.bind_eq_ok_iff.mp h
      cases h
      obtain ⟨k, v⟩ := m
      obtain ⟨k, a, hk, ha, rfl⟩ := entry_eq_ok_iff.mp hm
      cases hk
      have ih := ih hes
      refine ⟨Table.place_ascending k a ih.ascending, ?_, fun j b => ?_⟩
      · exact List.forall_mem_append.mpr ⟨ih.telling, List.forall_mem_singleton.mpr ⟨k, a, rfl, ha⟩⟩
      · rw [← Table.lookup_eq_some_iff (Table.place_ascending k a ih.ascending), Table.lookup_place, List.reverse_append,
          List.reverse_singleton, List.singleton_append, List.lookup_cons]
        by_cases hj : j = k
        · simp [hj, ha]
        · have hb : (some j == some k) = false := by simp [hj]
          rw [if_neg hj, Table.lookup_eq_some_iff ih.ascending, ih.mem_iff, hb]

/-- A record with keys of any name is decoded to its entries. -/
theorem entries_eq_ok_iff {value : Decoder α} {es : List (String × α)} {r : Reading} :
    entries value (d + 1) r = .ok es ↔ Lists (fun v a => value d v = .ok a) r es := by
  cases r with
  | record ms closed =>
      rw [entries, Except.bind_eq_ok_iff]
      simp only [atEnd_eq_ok_iff]
      constructor
      · rintro ⟨_, h, rfl, rfl⟩
        exact ⟨ms, rfl, membersList_of_foldlM h⟩
      · rintro ⟨_, hr, hl⟩
        cases hr
        obtain ⟨es', hes⟩ := exists_foldlM_entry hl.telling []
        exact ⟨es', hes, rfl, (membersList_of_foldlM hes).unique hl⟩
  | list | null | bool | num | str | broken =>
      constructor
      · intro h
        cases h
      · rintro ⟨_, hr, -⟩
        cases hr

theorem table_eq_ok_iff {value : Decoder α} {t : Table α} {r : Reading} :
    table value (d + 1) r = .ok t ↔ Lists (fun v a => value d v = .ok a) r t.entries := by
  rw [← entries_eq_ok_iff, table, Except.bind_eq_ok_iff]
  constructor
  · rintro ⟨es, hes, h⟩
    cases h
    obtain ⟨_, -, hl⟩ := entries_eq_ok_iff.mp hes
    rwa [ofList_entries ⟨es, hl.ascending⟩]
  · exact fun h => ⟨_, h, congrArg Except.ok (ofList_entries t)⟩

end Decoder
end NodeGroups.Json
