import NodeGroups.Fleet.Report
import NodeGroups.Proofs.Json.Records
import NodeGroups.Proofs.Json.Texts

/-!
# Reports with more in them than is looked for

`Padded` relates the value that stands for a part of a report to what has been read where others may have written it: the
records may have further members, which they know nothing of, and the members of tables may come in any order.
-/

namespace NodeGroups

namespace Fleet
open Json (Value Reading)
open Json.Decoder (Unknown)

/-- What the parts of a report are. -/
inductive Part where
  | text
  | health
  | unit
  | application
  | machine
  | snapshot
  /-- Parts of one kind by names. -/
  | table (of : Part)
  deriving DecidableEq, Repr

/-- The fields of a record, and what they are. -/
def Part.fields : Part → List (String × Part)
  | health => [("current", text), ("message", text)]
  | unit => [("juju-status", health), ("workload-status", health), ("machine", text)]
  | application => [("units", table unit)]
  | machine => [("hostname", text), ("dns-name", text), ("instance-id", text), ("containers", table machine)]
  | snapshot => [("applications", table application), ("machines", table machine)]
  | text | table _ => []

def Part.names (p : Part) : List String := p.fields.map (·.1)

mutual
/-- What has been read is the value of that part, but for members that its records know nothing of and for the order of its
tables. -/
def Padded : Part → Value → Reading → Prop
  | .text, v, r => r = v.reading
  | .table p, .record ms, r => ∃ rs rs', EntriesPadded p ms rs ∧ rs.Perm rs' ∧ r = .record rs' true
  | p, .record ms, r => ∃ rs, MembersPadded p ms rs ∧ r = .record rs true
  | _, _, _ => False

/-- Any number of unknown members stands before each member and behind the last. -/
def MembersPadded (p : Part) : List (String × Value) → List (Option String × Reading) → Prop
  | [], rs => ∀ m ∈ rs, Unknown p.names m
  | (k, v) :: ms, rs => ∃ extra r rs', rs = extra ++ (some k, r) :: rs' ∧ (∀ m ∈ extra, Unknown p.names m) ∧
      (∃ q ∈ p.fields.lookup k, Padded q v r) ∧ MembersPadded p ms rs'

def EntriesPadded (p : Part) : List (String × Value) → List (Option String × Reading) → Prop
  | [], rs => rs = []
  | (k, v) :: ms, rs => ∃ r rs', rs = (some k, r) :: rs' ∧ Padded p v r ∧ EntriesPadded p ms rs'
end

theorem membersPadded_cons {p q : Part} {k : String} {v : Value} {r : Reading} {ms : List (String × Value)}
    {rs : List (Option String × Reading)} (hq : p.fields.lookup k = some q) (hr : Padded q v r)
    (h : MembersPadded p ms rs) : MembersPadded p ((k, v) :: ms) ((some k, r) :: rs) :=
  ⟨[], r, rs, rfl, List.forall_mem_nil _, ⟨q, hq, hr⟩, h⟩

/-- A member that a record knows nothing of may be put in at any place. -/
theorem membersPadded_insert {p : Part} {m : Option String × Reading} (hm : Unknown p.names m) :
    {ms : List (String × Value)} → (before after : List (Option String × Reading)) →
      MembersPadded p ms (before ++ after) → MembersPadded p ms (before ++ m :: after)
  | [], before, after, h => by
      rw [MembersPadded, List.forall_mem_append] at h
      rw [MembersPadded, List.forall_mem_append, List.forall_mem_cons]
      exact ⟨h.1, hm, h.2⟩
  | (k, v) :: ms, before, after, h => by
      obtain ⟨extra, r, rs, hrs, hextra, hv, hms⟩ := h
      rcases List.append_eq_append_iff.mp hrs with ⟨rest, rfl, rfl⟩ | ⟨rest, rfl, hrest⟩
      · -- the member comes in among those that stand before the next one
        rw [List.forall_mem_append] at hextra
        refine ⟨before ++ m :: rest, r, rs, by simp, ?_, hv, hms⟩
        exact List.forall_mem_append.mpr ⟨hextra.1, List.forall_mem_cons.mpr ⟨hm, hextra.2⟩⟩
      · cases rest with
        | nil =>
            obtain rfl : after = (some k, r) :: rs := hrest.symm
            refine ⟨extra ++ [m], r, rs, by simp, ?_, hv, hms⟩
            exact List.forall_mem_append.mpr ⟨hextra, List.forall_mem_singleton.mpr hm⟩
        | cons m' rest =>
            obtain ⟨rfl, rfl⟩ := List.cons.inj hrest
            exact ⟨extra, r, rest ++ m :: after, by simp, hextra, hv, membersPadded_insert hm rest after hms⟩

/-! ## Nothing added -/

theorem membersPadded_self {p : Part} :
    {ms : List (String × Value)} → (∀ m ∈ ms, ∃ q ∈ p.fields.lookup m.1, Padded q m.2 m.2.reading) →
      MembersPadded p ms (Value.memberReadings ms)
  | [], _ => by simp [MembersPadded, Value.memberReadings]
  | (k, v) :: ms, h => by
      obtain ⟨⟨q, hq, hv⟩, h⟩ := List.forall_mem_cons.mp h
      exact membersPadded_cons hq hv (membersPadded_self h)

theorem entriesPadded_self {p : Part} :
    {ms : List (String × Value)} → (∀ m ∈ ms, Padded p m.2 m.2.reading) → EntriesPadded p ms (Value.memberReadings ms)
  | [], _ => by simp [EntriesPadded, Value.memberReadings]
  | (k, v) :: ms, h => by
      obtain ⟨hm, h⟩ := List.forall_mem_cons.mp h
      exact ⟨v.reading, Value.memberReadings ms, rfl, hm, entriesPadded_self h⟩

theorem padded_table_self {p : Part} {ms : List (String × Value)} (h : ∀ m ∈ ms, Padded p m.2 m.2.reading) :
    Padded (.table p) (.record ms) (Value.record ms).reading :=
  ⟨_, _, entriesPadded_self h, .rfl, rfl⟩

theorem padded_text_self (s : String) : Padded .text (.str s) (Value.str s).reading := by rw [Padded]

theorem Health.padded_self (h : Health) : Padded .health h.toJson h.toJson.reading := by
  refine ⟨_, membersPadded_self ?_, rfl⟩
  refine List.forall_mem_cons.mpr ⟨⟨.text, rfl, padded_text_self _⟩, ?_⟩
  split
  · exact nofun
  · exact List.forall_mem_singleton.mpr ⟨.text, rfl, padded_text_self _⟩

theorem UnitStatus.padded_self (s : UnitStatus) : Padded .unit s.toJson s.toJson.reading := by
  refine ⟨_, membersPadded_self ?_, rfl⟩
  simp only [List.forall_mem_cons]
  exact ⟨⟨.health, rfl, s.agent.padded_self⟩, ⟨.health, rfl, s.workload.padded_self⟩, ⟨.text, rfl, padded_text_self _⟩, nofun⟩

mutual
theorem Machine.padded_self : (m : Machine) → Padded .machine m.toJson m.toJson.reading
  | ⟨hostname, dnsName, instanceId, containers⟩ => by
      rw [Machine.toJson]
      refine ⟨_, membersPadded_self (List.forall_mem_append.mpr ⟨?_, ?_⟩), rfl⟩
      · simp only [List.forall_mem_cons]
        exact ⟨⟨.text, rfl, padded_text_self _⟩, ⟨.text, rfl, padded_text_self _⟩, ⟨.text, rfl, padded_text_self _⟩, nofun⟩
      · split
        · exact nofun
        · have hc := padded_table_self (Machine.padded_members containers)
          exact List.forall_mem_singleton.mpr ⟨.table .machine, rfl, hc⟩

theorem Machine.padded_members : (ms : List (String × Machine)) → ∀ m ∈ Machine.members ms, Padded .machine m.2 m.2.reading
  | [] => nofun
  | (_, m) :: rest => List.forall_mem_cons.mpr ⟨m.padded_self, Machine.padded_members rest⟩
end

theorem padded_units (us : Table UnitStatus) :
    Padded .application (.record [("units", unitsToJson us)]) (Value.record [("units", unitsToJson us)]).reading := by
  refine ⟨_, membersPadded_self (List.forall_mem_singleton.mpr ⟨.table .unit, rfl, padded_table_self ?_⟩), rfl⟩
  intro m hm
  obtain ⟨e, -, rfl⟩ := List.mem_map.mp hm
  exact e.2.padded_self

theorem Snapshot.padded_self (s : Snapshot) : Padded .snapshot s.toJson s.toJson.reading := by
  refine ⟨_, membersPadded_self (List.forall_mem_cons.mpr ⟨?_, List.forall_mem_singleton.mpr ?_⟩), rfl⟩
  · refine ⟨.table .application, rfl, padded_table_self fun m hm => ?_⟩
    obtain ⟨e, -, rfl⟩ := List.mem_map.mp hm
    exact padded_units e.2
  · exact ⟨.table .machine, rfl, padded_table_self (Machine.padded_members s.machines)⟩

end Fleet
end NodeGroups
