import NodeGroups.Fleet.Report
import NodeGroups.Proofs.Chains

/-!
# Snapshots that have been read

Machines and the containers on each are kept in ascending order of their ids, so that snapshots with the same look-ups are
equal. Every snapshot that has been read is so ordered, and its own report nests no deeper than a report may. Main
statement: `sorted_of_ofReport`.
-/

namespace NodeGroups

namespace Json.Value

mutual
/-- How deep lists and records nest in the value. -/
def depth : Value → Nat
  | list items => itemsDepth items + 1
  | record members => membersDepth members + 1
  | _ => 0

def itemsDepth : List Value → Nat
  | [] => 0
  | v :: vs => max (depth v) (itemsDepth vs)

def membersDepth : List (String × Value) → Nat
  | [] => 0
  | (_, v) :: ms => max (depth v) (membersDepth ms)
end

theorem membersDepth_le_iff {d : Nat} : {ms : List (String × Value)} → (membersDepth ms ≤ d ↔ ∀ m ∈ ms, m.2.depth ≤ d)
  | [] => by simp [membersDepth]
  | (k, v) :: ms => by rw [membersDepth, Nat.max_le, List.forall_mem_cons, membersDepth_le_iff]

/-- A record takes one level more than its members. -/
theorem depth_record_le_iff {ms : List (String × Value)} {d : Nat} :
    (record ms).depth ≤ d + 1 ↔ ∀ m ∈ ms, m.2.depth ≤ d := by
  rw [depth, Nat.add_le_add_iff_right, membersDepth_le_iff]

theorem exists_of_depth_record_le {ms : List (String × Value)} {d : Nat} (h : (record ms).depth ≤ d) :
    ∃ d', d = d' + 1 ∧ ∀ m ∈ ms, m.2.depth ≤ d' := by
  obtain ⟨d', rfl⟩ : ∃ d', d = d' + 1 := ⟨d - 1, by rw [depth] at h; omega⟩
  exact ⟨d', rfl, depth_record_le_iff.mp h⟩

end Json.Value

namespace Json.Decoder

variable {α : Type} {fields : List (Field α)} {P : α → Prop} {d : Nat} {r : Reading} {a b : α}

theorem of_atEnd {closed : Bool} (h : atEnd closed a = .ok b) : a = b := by
  cases closed <;> cases h
  rfl

theorem of_ite_atEnd {closed missing : Bool} {e : Fault} (h : (if missing then .error e else atEnd closed a) = .ok b) :
    a = b := by
  cases missing with
  | true => cases h
  | false => exact of_atEnd h

/-- Whatever a field takes, it keeps a property of the record. -/
def Field.Keeps (P : α → Prop) (d : Nat) (f : Field α) : Prop := ∀ r a b, f.put d r a = .ok b → P a → P b

theorem keeps_field {β : Type} {name : String} {value : Decoder β} {set : β → α → α}
    (h : ∀ r x a, value d r = .ok x → P a → P (set x a)) : (field name value set).Keeps P d := by
  intro r a b hb ha
  obtain ⟨x, hx, hb⟩ := Except.bind_eq_ok_iff.mp hb
  cases hb
  exact h r x a hx ha

theorem member_keeps (hf : ∀ f ∈ fields, f.Keeps P d) {m : Option String × Reading} {read read' : List String × α}
    (h : member fields d read m = .ok read') (hp : P read.2) : P read'.2 := by
  obtain ⟨_ | k, v⟩ := m
  · cases h
  · simp only [member] at h
    split at h
    · split at h <;> cases h
      exact hp
    · next f hfind =>
      split at h
      · cases h
      · obtain ⟨b, hb, h⟩ := Except.bind_eq_ok_iff.mp h
        cases h
        exact hf f (List.mem_of_find?_eq_some hfind) _ _ _ hb hp

theorem inOrder_keeps {closed : Bool} : {fields : List (Field α)} → (∀ f ∈ fields, f.Keeps P d) → {vs : List Reading} →
    {a b : α} → inOrder closed d fields vs a = .ok b → P a → P b
  | [], _, [], _, _, h, hp | _ :: _, _, [], _, _, h, hp => of_ite_atEnd h ▸ hp
  | [], _, _ :: _, _, _, h, _ => nomatch h
  | f :: fs, hf, v :: vs, a, b, h, hp => by
      obtain ⟨hf, hfs⟩ := List.forall_mem_cons.mp hf
      obtain ⟨c, hc, h⟩ := Except.bind_eq_ok_iff.mp h
      exact inOrder_keeps hfs h (hf _ _ _ hc hp)

/-- What a record starts with and all its fields keep holds of what is decoded. -/
theorem exists_of_record {start : α} (h : record fields start d r = .ok a) :
    ∃ d', d = d' + 1 ∧ ∀ P : α → Prop, P start → (∀ f ∈ fields, f.Keeps P d') → P a := by
  cases d with
  | zero => cases r <;> cases h
  | succ d =>
      refine ⟨d, rfl, fun P hs hf => ?_⟩
      cases r with
      | record members closed =>
          obtain ⟨⟨given, b⟩, hb, h⟩ := Except.bind_eq_ok_iff.mp h
          have hp : P (given, b).2 :=
            Except.foldlM_keeps (P := fun read => P read.2) (fun _ _ _ hm hp => member_keeps hf hm hp) hb hs
          exact of_ite_atEnd h ▸ hp
      | list items closed => exact inOrder_keeps hf h hs
      | null | bool | num | str | broken => cases h

theorem exists_of_entries {value : Decoder α} {es : List (String × α)} (h : entries value d r = .ok es) :
    ∃ d', d = d' + 1 ∧ es.Pairwise (·.1 < ·.1) ∧ ∀ e ∈ es, ∃ v, value d' v = .ok e.2 := by
  cases d with
  | zero => cases r <;> cases h
  | succ d =>
      refine ⟨d, rfl, ?_⟩
      cases r with
      | record members closed =>
          obtain ⟨es', hes, h⟩ := Except.bind_eq_ok_iff.mp h
          have hstep : ∀ es m es', entry value d es m = .ok es' →
              (es.Pairwise (·.1 < ·.1) ∧ ∀ e ∈ es, ∃ v, value d v = .ok e.2) →
                es'.Pairwise (·.1 < ·.1) ∧ ∀ e ∈ es', ∃ v, value d v = .ok e.2 := by
            rintro es ⟨_ | k, v⟩ es' he ⟨hp, hes⟩
            · cases he
            · obtain ⟨x, hx, he⟩ := Except.bind_eq_ok_iff.mp he
              cases he
              refine ⟨Table.place_ascending k x hp, fun e he => ?_⟩
              rcases Table.mem_place he with rfl | he
              · exact ⟨v, hx⟩
              · exact hes e he
          exact of_atEnd h ▸ Except.foldlM_keeps hstep hes ⟨.nil, nofun⟩
      | list | null | bool | num | str | broken => cases h

end Json.Decoder

namespace Fleet
open Json (Decoder Value)
open Json.Decoder (keeps_field)

variable {d : Nat} {r : Json.Reading}

/-! ## Machines -/

mutual
/-- The ids of containers ascend. -/
def Machine.Sorted : Machine → Prop
  | ⟨_, _, _, containers⟩ => containers.Pairwise (·.1 < ·.1) ∧ Machine.AllSorted containers

def Machine.AllSorted : List (String × Machine) → Prop
  | [] => True
  | (_, m) :: rest => m.Sorted ∧ Machine.AllSorted rest
end

theorem Machine.sorted_iff (m : Machine) : m.Sorted ↔ m.containers.Pairwise (·.1 < ·.1) ∧ Machine.AllSorted m.containers := by
  cases m
  rfl

theorem Machine.members_eq_map : (ms : List (String × Machine)) → Machine.members ms = ms.map fun e => (e.1, e.2.toJson)
  | [] => rfl
  | (id, m) :: rest => by rw [Machine.members, Machine.members_eq_map rest, List.map_cons]

theorem depth_members_le_iff {ms : List (String × Machine)} :
    (Value.record (Machine.members ms)).depth ≤ d + 1 ↔ ∀ e ∈ ms, e.2.toJson.depth ≤ d := by
  rw [Value.depth_record_le_iff, Machine.members_eq_map, List.forall_mem_map]

/-- Machines by ids, in order, whose reports nest at most so deep. -/
structure Machine.Fit (d : Nat) (ms : List (String × Machine)) : Prop where
  ascending : ms.Pairwise (·.1 < ·.1)
  sorted : Machine.AllSorted ms
  depth_le : ∀ e ∈ ms, e.2.toJson.depth + 1 ≤ d

theorem Machine.Fit.of_forall {ms : List (String × Machine)} (h : ms.Pairwise (·.1 < ·.1))
    (hs : ∀ e ∈ ms, e.2.Sorted ∧ e.2.toJson.depth ≤ d) : Machine.Fit (d + 1) ms where
  ascending := h
  sorted := by
    clear h
    induction ms with
    | nil => trivial
    | cons e ms ih =>
        rw [List.forall_mem_cons] at hs
        exact ⟨hs.1.1, ih hs.2⟩
  depth_le e he := Nat.succ_le_succ (hs e he).2

/-- Containers take two levels more than each of them, as long as there are any. -/
theorem Machine.Fit.sorted_and_depth_le {m : Machine} (h : Machine.Fit d m.containers) :
    m.Sorted ∧ m.toJson.depth ≤ d + 1 := by
  refine ⟨(Machine.sorted_iff m).mpr ⟨h.ascending, h.sorted⟩, ?_⟩
  obtain ⟨hostname, dnsName, instanceId, containers⟩ := m
  rw [Machine.toJson, Value.depth_record_le_iff, List.forall_mem_append]
  refine ⟨by simp [Value.depth], ?_⟩
  split
  · exact nofun
  · next hne =>
    rw [List.forall_mem_singleton]
    obtain ⟨e, he⟩ := List.exists_mem_of_ne_nil containers fun hnil => hne (List.isEmpty_iff.mpr hnil)
    obtain ⟨d, rfl⟩ : ∃ d', d = d' + 1 := ⟨d - 1, by have := h.depth_le e he; omega⟩
    exact depth_members_le_iff.mpr fun e he => Nat.le_of_succ_le_succ (h.depth_le e he)

theorem Machine.fit_of_entries {levels : Nat} {ms : List (String × Machine)}
    (hm : ∀ {d r m}, Machine.decoderTo levels d r = .ok m → m.Sorted ∧ m.toJson.depth ≤ d)
    (h : Decoder.entries (Machine.decoderTo levels) d r = .ok ms) : Machine.Fit d ms := by
  obtain ⟨d, rfl, hp, hes⟩ := Json.Decoder.exists_of_entries h
  refine .of_forall hp fun e he => ?_
  obtain ⟨v, hv⟩ := hes e he
  exact hm hv

theorem Machine.sorted_of_decoderTo {levels : Nat} {m : Machine} (h : Machine.decoderTo levels d r = .ok m) :
    m.Sorted ∧ m.toJson.depth ≤ d := by
  have hstart : ∀ d, Machine.Fit d [] := fun d => ⟨.nil, trivial, nofun⟩
  induction levels generalizing d r m with
  | zero =>
      obtain ⟨d, rfl, hP⟩ := Json.Decoder.exists_of_record h
      have hf := hP (fun m => Machine.Fit d m.containers) (hstart d) fun _ hf => absurd hf List.not_mem_nil
      exact hf.sorted_and_depth_le
  | succ levels ih =>
      obtain ⟨d, rfl, hP⟩ := Json.Decoder.exists_of_record h
      refine (hP (fun m => Machine.Fit d m.containers) (hstart d) ?_).sorted_and_depth_le
      -- no field but the last touches the containers
      simp only [List.forall_mem_cons]
      refine ⟨keeps_field fun _ _ _ _ hm => hm, keeps_field fun _ _ _ _ hm => hm, keeps_field fun _ _ _ _ hm => hm, ?_, nofun⟩
      exact keeps_field fun _ _ _ hcs _ => Machine.fit_of_entries ih hcs

/-! ## Snapshots -/

/-- The ids of machines, and those of the containers on each, ascend. -/
def Snapshot.Sorted (s : Snapshot) : Prop := s.machines.Pairwise (·.1 < ·.1) ∧ Machine.AllSorted s.machines

theorem Health.depth_toJson_le (h : Health) : h.toJson.depth ≤ 1 := by
  refine Value.depth_record_le_iff.mpr (List.forall_mem_cons.mpr ⟨by simp [Value.depth], ?_⟩)
  split <;> simp [Value.depth]

theorem UnitStatus.depth_toJson_le (s : UnitStatus) : s.toJson.depth ≤ 2 := by
  refine Value.depth_record_le_iff.mpr ?_
  simp only [List.forall_mem_cons]
  exact ⟨s.agent.depth_toJson_le, s.workload.depth_toJson_le, by simp [Value.depth], nofun⟩

theorem depth_applications_le (t : Table (Table UnitStatus)) :
    (Value.record (t.map fun _ us => .record [("units", unitsToJson us)]).entries).depth ≤ 5 := by
  refine Value.depth_record_le_iff.mpr fun m hm => ?_
  obtain ⟨e, -, rfl⟩ := List.mem_map.mp hm
  refine Value.depth_record_le_iff.mpr (List.forall_mem_singleton.mpr (Value.depth_record_le_iff.mpr fun m hm => ?_))
  obtain ⟨e, -, rfl⟩ := List.mem_map.mp hm
  exact e.2.depth_toJson_le

theorem Snapshot.sorted_of_ofReport {bs : List UInt8} {s : Snapshot} (h : Snapshot.ofReport bs = .ok s) :
    s.Sorted ∧ s.toJson.depth ≤ Json.maxDepth := by
  obtain ⟨s', hs', h⟩ := Except.bind_eq_ok_iff.mp h
  obtain ⟨d, hd, hP⟩ := Json.Decoder.exists_of_record hs'
  have hf : Machine.Fit d s'.machines := by
    refine hP (fun s => Machine.Fit d s.machines) ⟨.nil, trivial, nofun⟩ ?_
    simp only [List.forall_mem_cons]
    refine ⟨keeps_field fun _ _ _ _ hm => hm, ?_, nofun⟩
    exact keeps_field fun _ _ _ hms _ => Machine.fit_of_entries Machine.sorted_of_decoderTo hms
  split at h <;> cases h
  cases hd
  refine ⟨⟨hf.ascending, hf.sorted⟩, Value.depth_record_le_iff.mpr ?_⟩
  rw [List.forall_mem_cons, List.forall_mem_singleton]
  refine ⟨Nat.le_trans (depth_applications_le s.applications) (by decide), ?_⟩
  exact depth_members_le_iff.mpr fun e he => Nat.le_of_succ_le_succ (hf.depth_le e he)

end Fleet
end NodeGroups
