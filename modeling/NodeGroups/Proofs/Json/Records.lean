import Mathlib.Data.List.Perm.Basic
import NodeGroups.Json.Decoder
import NodeGroups.Proofs.Chains
import NodeGroups.Proofs.Table

/-!
# Decoding of records

A record with known fields is decoded member by member, and the members that no field has the name of leave no trace. A
record with keys of any name is decoded to its entries, whatever order they come in. Main statements: `foldlM_unknown`,
`foldlM_known` and `entries_of_perm`.
-/

namespace NodeGroups.Json.Decoder

variable {α β : Type} {fields : List (Field α)} {depth : Nat}

/-! ## Known fields -/

/-- A whole member of another name. -/
def Unknown (names : List String) (m : Option String × Reading) : Prop :=
  (∃ k, m.1 = some k ∧ k ∉ names) ∧ m.2.whole = true

theorem member_unknown {m : Option String × Reading} (h : Unknown (fields.map (·.name)) m) (read : List String × α) :
    member fields depth read m = .ok read := by
  obtain ⟨k, v⟩ := m
  obtain ⟨⟨k, rfl, hk⟩, hv⟩ := h
  have hf : fields.find? (·.name == k) = none := by
    rw [List.find?_eq_none]
    intro f hf he
    exact hk (List.mem_map.mpr ⟨f, hf, beq_iff_eq.mp he⟩)
  simp only [member, hf]
  exact if_pos hv

theorem foldlM_unknown {extra : List (Option String × Reading)} (h : ∀ m ∈ extra, Unknown (fields.map (·.name)) m)
    (read : List String × α) : extra.foldlM (member fields depth) read = .ok read := by
  induction extra with
  | nil => rfl
  | cons m extra ih =>
      obtain ⟨hm, h⟩ := List.forall_mem_cons.mp h
      exact (Except.foldlM_cons_of_ok (member_unknown hm read) extra).trans (ih h)

/-- A field that is given for the first time takes its value, whatever stands before it. -/
theorem foldlM_known {extra rest : List (Option String × Reading)} {k : String} {v : Reading} {f : Field α}
    {given : List String} {a b : α} (h : ∀ m ∈ extra, Unknown (fields.map (·.name)) m)
    (hf : fields.find? (·.name == k) = some f) (hk : k ∉ given) (hput : f.put depth v a = .ok b) :
    (extra ++ (some k, v) :: rest).foldlM (member fields depth) (given, a) =
      rest.foldlM (member fields depth) (k :: given, b) := by
  have hm : member fields depth (given, a) (some k, v) = .ok (k :: given, b) := by
    simp only [member, hf, if_neg hk, hput]
    rfl
  exact (Except.foldlM_append_of_ok (foldlM_unknown h _) _).trans (Except.foldlM_cons_of_ok hm rest)

theorem put_field {value : Decoder β} {name : String} {set : β → α → α} {r : Reading} {b : β}
    (h : value depth r = .ok b) (a : α) : (field name value set).put depth r a = .ok (set b a) := by
  simp only [field, h]
  rfl

/-- No field has to be given. -/
theorem record_of_foldlM {start a : α} {members : List (Option String × Reading)} {given : List String}
    (hreq : ∀ f ∈ fields, f.required = false)
    (h : members.foldlM (member fields depth) ([], start) = .ok (given, a)) :
    record fields start (depth + 1) (.record members true) = .ok a := by
  have hany : (fields.any fun f => f.required && !given.contains f.name) = false := by
    rw [List.any_eq_false]
    intro f hf
    simp [hreq f hf]
  simp only [record, h]
  show (if (true && fields.any fun f => f.required && !given.contains f.name) = true then _ else _) = _
  rw [Bool.true_and, hany]
  rfl

/-! ## Keys of any name -/

/-- These are the members of the entries in their order. -/
def Holds (value : Decoder α) (depth : Nat) (es : List (String × α)) (members : List (Option String × Reading)) : Prop :=
  List.Forall₂ (fun e m => m.1 = some e.1 ∧ value depth m.2 = .ok e.2) es members

theorem foldlM_entry {value : Decoder α} {es : List (String × α)} {members : List (Option String × Reading)}
    (h : Holds value depth es members) (read : List (String × α)) :
    members.foldlM (entry value depth) read = .ok (es.foldl (fun es e => Table.place e.1 e.2 es) read) := by
  induction h generalizing read with
  | nil => rfl
  | @cons e m es ms hm _ ih =>
      obtain ⟨k, v⟩ := m
      obtain ⟨hk, hv⟩ := hm
      cases hk
      have he : entry value depth read (some e.1, v) = .ok (Table.place e.1 e.2 read) := by
        simp only [entry, hv]
        rfl
      exact (Except.foldlM_cons_of_ok he ms).trans (ih _)

theorem foldl_place (es : List (String × α)) (t : Table α) :
    es.foldl (fun es e => Table.place e.1 e.2 es) t.entries = (es.foldl (fun t e => t.insert e.1 e.2) t).entries := by
  induction es generalizing t with
  | nil => rfl
  | cons e es ih => exact ih (t.insert e.1 e.2)

/-- Entries that are put into place one after another come to stand in ascending order. -/
theorem foldl_place_of_perm {es es' : List (String × α)} (h : es.Pairwise (·.1 < ·.1)) (hp : es.Perm es') :
    es'.foldl (fun es e => Table.place e.1 e.2 es) [] = es := by
  have hn : (es.map (·.1)).Nodup := Table.keys_nodup ⟨es, h⟩
  refine (foldl_place es' Table.empty).trans ?_
  refine Table.entries_eq_of_lookup_eq (Table.ascending _) h fun k => ?_
  have hget := Table.get?_foldl_insert (fun _ a => a) k es' ((hp.map _).nodup_iff.mp hn) Table.empty
  simp only [Option.map_id_fun', Table.get?_empty, Option.or_none] at hget
  exact hget.trans (Table.lookup_eq_of_perm hp hn k).symm

theorem entries_of_perm {value : Decoder α} {es : List (String × α)} {members members' : List (Option String × Reading)}
    (hes : es.Pairwise (·.1 < ·.1)) (h : Holds value depth es members) (hp : members.Perm members') :
    entries value (depth + 1) (.record members' true) = .ok es := by
  obtain ⟨es', hp', h'⟩ : Relation.Comp List.Perm (Holds value depth) es members' :=
    List.forall₂_comp_perm_eq_perm_comp_forall₂ ▸ ⟨members, h, hp⟩
  have hfold := foldlM_entry h' []
  rw [foldl_place_of_perm hes hp'] at hfold
  simp only [entries, hfold]
  rfl

theorem ofList_entries (t : Table α) : Table.ofList t.entries = t := by
  refine Table.ext_get? fun k => ?_
  have hget := Table.get?_foldl_insert (fun _ a => a) k t.entries t.keys_nodup Table.empty
  simp only [Option.map_id_fun', Table.get?_empty, Option.or_none] at hget
  exact hget

theorem table_of_perm {value : Decoder α} {t : Table α} {members members' : List (Option String × Reading)}
    (h : Holds value depth t.entries members) (hp : members.Perm members') :
    table value (depth + 1) (.record members' true) = .ok t := by
  simp only [table, entries_of_perm t.ascending h hp]
  exact congrArg Except.ok (ofList_entries t)

end NodeGroups.Json.Decoder
