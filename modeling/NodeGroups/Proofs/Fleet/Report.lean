import NodeGroups.Proofs.Fleet.Decoded
import NodeGroups.Proofs.Fleet.Padding

/-!
# Reports are read as they are written

The report of a snapshot is read as that snapshot, and so is every report that has more in it than is looked for. Main
statement: `ofReport_toJson`.
-/

namespace NodeGroups.Fleet
open Json (Value Reading Decoder)
open Json.Decoder (field member)

variable {α β : Type} {p q : Part} {fields : List (Decoder.Field α)} {d : Nat} {ms : List (String × Value)} {r : Reading}

/-! ## Records -/

/-- The fields of a part, none of which has to be given. -/
structure Part.IsReadBy (p : Part) (fields : List (Decoder.Field α)) : Prop where
  names_eq : fields.map (·.name) = p.names
  optional : ∀ f ∈ fields, f.required = false

/-- The members take a value from one to the other, however they are padded. -/
inductive Fills (p : Part) (fields : List (Decoder.Field α)) (d : Nat) : α → List (String × Value) → α → Prop
  | nil (a) : Fills p fields d a [] a
  | cons {a b c k v ms f} : fields.find? (·.name == k) = some f →
      (∀ q ∈ p.fields.lookup k, ∀ r, Padded q v r → f.put d r a = .ok b) → Fills p fields d b ms c →
      Fills p fields d a ((k, v) :: ms) c

theorem Fills.field {a c : α} {x : β} {k : String} {v : Value} {value : Decoder β} {set : β → α → α}
    (hf : fields.find? (·.name == k) = some (field k value set)) (hq : p.fields.lookup k = some q)
    (hv : ∀ r, Padded q v r → value d r = .ok x) (h : Fills p fields d (set x a) ms c) :
    Fills p fields d a ((k, v) :: ms) c := by
  refine .cons hf (fun q' hq' r hr => Json.Decoder.put_field (hv r ?_) a) h
  rw [hq] at hq'
  cases hq'
  exact hr

theorem Fills.foldlM {a b : α} (h : Fills p fields d a ms b) (hp : p.IsReadBy fields)
    {rs : List (Option String × Reading)} (hm : MembersPadded p ms rs) (hn : (ms.map (·.1)).Nodup) (given : List String)
    (hg : ∀ k ∈ ms.map (·.1), k ∉ given) : ∃ given', rs.foldlM (member fields d) (given, a) = .ok (given', b) := by
  induction h generalizing rs given with
  | nil a =>
      rw [MembersPadded, ← hp.names_eq] at hm
      exact ⟨given, Json.Decoder.foldlM_unknown hm _⟩
  | @cons a b c k v ms f hf hput _ ih =>
      obtain ⟨extra, r, rs', rfl, hextra, ⟨q, hq, hr⟩, hm⟩ := hm
      rw [← hp.names_eq] at hextra
      rw [List.map_cons, List.nodup_cons] at hn
      rw [List.map_cons, List.forall_mem_cons] at hg
      rw [Json.Decoder.foldlM_known hextra hf hg.1 (hput q hq r hr)]
      refine ih hm hn.2 (k :: given) fun k' hk' => ?_
      rw [List.mem_cons, not_or]
      exact ⟨fun he => hn.1 (he ▸ hk'), hg.2 k' hk'⟩

theorem exists_of_padded_record (hp : p.fields ≠ []) (h : Padded p (.record ms) r) :
    ∃ rs, MembersPadded p ms rs ∧ r = .record rs true := by
  cases p with
  | text | table => exact absurd rfl hp
  | health | unit | application | machine | snapshot => simpa only [Padded] using h

theorem Fills.record {start a : α} (h : Fills p fields d start ms a) (hp : p.IsReadBy fields) (hne : p.fields ≠ [])
    (hn : (ms.map (·.1)).Nodup) (hr : Padded p (.record ms) r) : Decoder.record fields start (d + 1) r = .ok a := by
  obtain ⟨rs, hm, rfl⟩ := exists_of_padded_record hne hr
  obtain ⟨given, hfold⟩ := h.foldlM hp hm hn [] fun _ _ => List.not_mem_nil
  exact Json.Decoder.record_of_foldlM hp.optional hfold

/-! ## Tables -/

theorem holds_of_padded {value : Decoder α} (enc : α → Value) :
    {es : List (String × α)} → {rs : List (Option String × Reading)} →
      EntriesPadded p (es.map fun e => (e.1, enc e.2)) rs →
      (∀ e ∈ es, ∀ r, Padded p (enc e.2) r → value d r = .ok e.2) → Json.Decoder.Holds value d es rs
  | [], _, h, _ => by
      rw [List.map_nil, EntriesPadded] at h
      exact h ▸ .nil
  | e :: es, _, h, hv => by
      rw [List.map_cons, EntriesPadded] at h
      obtain ⟨r, rs, rfl, hr, hrs⟩ := h
      rw [List.forall_mem_cons] at hv
      exact .cons ⟨rfl, hv.1 r hr⟩ (holds_of_padded enc hrs hv.2)

theorem entries_of_padded {value : Decoder α} (enc : α → Value) {es : List (String × α)} (hes : es.Pairwise (·.1 < ·.1))
    (hv : ∀ e ∈ es, ∀ r, Padded p (enc e.2) r → value d r = .ok e.2)
    (hr : Padded (.table p) (.record (es.map fun e => (e.1, enc e.2))) r) : Decoder.entries value (d + 1) r = .ok es := by
  obtain ⟨rs, rs', hrs, hp, rfl⟩ := hr
  exact Json.Decoder.entries_of_perm hes (holds_of_padded enc hrs hv) hp

theorem table_of_padded {value : Decoder α} (enc : α → Value) {t : Table α}
    (hv : ∀ e ∈ t.entries, ∀ r, Padded p (enc e.2) r → value d r = .ok e.2)
    (hr : Padded (.table p) (.record (t.entries.map fun e => (e.1, enc e.2))) r) : Decoder.table value (d + 1) r = .ok t := by
  obtain ⟨rs, rs', hrs, hp, rfl⟩ := hr
  exact Json.Decoder.table_of_perm (holds_of_padded enc hrs hv) hp

theorem exists_of_depth_map_le (enc : α → Value) {es : List (String × α)}
    (h : (Value.record (es.map fun e => (e.1, enc e.2))).depth ≤ d) :
    ∃ d', d = d' + 1 ∧ ∀ e ∈ es, (enc e.2).depth ≤ d' := by
  obtain ⟨d', rfl, hms⟩ := Value.exists_of_depth_record_le h
  exact ⟨d', rfl, fun e he => hms (e.1, enc e.2) (List.mem_map.mpr ⟨e, he, rfl⟩)⟩

/-! ## Units -/

theorem string_of_padded {s : String} (h : Padded .text (.str s) r) : Decoder.string d r = .ok s := by
  rw [Padded] at h
  subst h
  rfl

theorem Health.decoder_of_padded (h : Health) (hd : h.toJson.depth ≤ d) (hr : Padded .health h.toJson r) :
    Health.decoder d r = .ok h := by
  obtain ⟨d, rfl, -⟩ := Value.exists_of_depth_record_le hd
  unfold Health.toJson at hr
  refine Fills.record ?_ ⟨rfl, by simp [field]⟩ (by decide) ?_ hr
  · refine .field rfl rfl (fun _ => string_of_padded) ?_
    split
    · next hm =>
      obtain ⟨current, message⟩ := h
      obtain rfl : message = "" := String.isEmpty_iff.mp hm
      exact .nil _
    · exact .field rfl rfl (fun _ => string_of_padded) (.nil _)
  · split <;> simp

theorem UnitStatus.decoder_of_padded (s : UnitStatus) (hd : s.toJson.depth ≤ d) (hr : Padded .unit s.toJson r) :
    UnitStatus.decoder d r = .ok s := by
  obtain ⟨d, rfl, hms⟩ := Value.exists_of_depth_record_le hd
  simp only [List.forall_mem_cons] at hms
  obtain ⟨ha, hw, -⟩ := hms
  refine Fills.record ?_ ⟨rfl, by simp [field]⟩ (by decide) (by simp) hr
  exact .field rfl rfl (fun _ => s.agent.decoder_of_padded ha) <|
    .field rfl rfl (fun _ => s.workload.decoder_of_padded hw) <|
    .field rfl rfl (fun _ => string_of_padded) (.nil _)

theorem unitsDecoder_of_padded (us : Table UnitStatus) (hd : (Value.record [("units", unitsToJson us)]).depth ≤ d)
    (hr : Padded .application (.record [("units", unitsToJson us)]) r) : unitsDecoder d r = .ok us := by
  obtain ⟨d, rfl, hms⟩ := Value.exists_of_depth_record_le hd
  obtain ⟨d, rfl, hus⟩ := exists_of_depth_map_le UnitStatus.toJson (hms _ (List.mem_singleton_self _))
  refine Fills.record ?_ ⟨rfl, by simp [field]⟩ (by decide) (by simp) hr
  refine .field rfl rfl (fun _ => ?_) (.nil _)
  exact table_of_padded UnitStatus.toJson fun e he _ => e.2.decoder_of_padded (hus e he)

/-! ## Machines -/

theorem exists_of_depth_members_le {ms : List (String × Machine)} (h : (Value.record (Machine.members ms)).depth ≤ d) :
    ∃ d', d = d' + 1 ∧ ∀ e ∈ ms, e.2.toJson.depth ≤ d' := by
  rw [Machine.members_eq_map] at h
  exact exists_of_depth_map_le Machine.toJson h

mutual
/-- Each level of containers takes two levels of the report, so there are enough of them. -/
theorem Machine.decoderTo_of_padded : (m : Machine) → m.Sorted → {levels d : Nat} → m.toJson.depth ≤ levels →
    m.toJson.depth ≤ d → {r : Reading} → Padded .machine m.toJson r → Machine.decoderTo levels d r = .ok m
  | ⟨hostname, dnsName, instanceId, containers⟩, hs, levels, d, hl, hd, r, hr => by
      rw [Machine.toJson] at hl hd hr
      obtain ⟨levels, rfl, hls⟩ := Value.exists_of_depth_record_le hl
      obtain ⟨d, rfl, hds⟩ := Value.exists_of_depth_record_le hd
      refine Fills.record ?_ ⟨rfl, by simp [field]⟩ (by decide) ?_ hr
      · refine .field rfl rfl (fun _ => string_of_padded) <| .field rfl rfl (fun _ => string_of_padded) <|
          .field rfl rfl (fun _ => string_of_padded) ?_
        split
        · next he =>
          -- what is left out is what the machine starts with
          obtain rfl := List.isEmpty_iff.mp he
          exact .nil _
        · next he =>
          rw [if_neg he, List.forall_mem_append, List.forall_mem_singleton] at hls hds
          obtain ⟨levels, rfl, hlc⟩ := exists_of_depth_members_le hls.2
          obtain ⟨d, rfl, hdc⟩ := exists_of_depth_members_le hds.2
          have hc := Machine.decoderTo_of_mem containers hs.2 fun e he => ⟨Nat.le_succ_of_le (hlc e he), hdc e he⟩
          rw [Machine.members_eq_map]
          exact .field rfl rfl (fun _ => entries_of_padded Machine.toJson hs.1 hc) (.nil _)
      · split <;> simp

theorem Machine.decoderTo_of_mem : (ms : List (String × Machine)) → Machine.AllSorted ms → {levels d : Nat} →
    (∀ e ∈ ms, e.2.toJson.depth ≤ levels ∧ e.2.toJson.depth ≤ d) → ∀ e ∈ ms, ∀ r, Padded .machine e.2.toJson r →
      Machine.decoderTo levels d r = .ok e.2
  | [], _, _, _, _, _, he, _, _ => absurd he List.not_mem_nil
  | (id, m) :: rest, hs, levels, d, hd, e, he, r, hr => by
      obtain ⟨hm, hrest⟩ := List.forall_mem_cons.mp hd
      rcases List.mem_cons.mp he with rfl | he
      · exact Machine.decoderTo_of_padded m hs.1 hm.1 hm.2 hr
      · exact Machine.decoderTo_of_mem rest hs.2 hrest e he r hr
end

/-! ## Snapshots -/

theorem Snapshot.decoder_of_padded {s : Snapshot} (hs : s.Sorted) (hle : d ≤ Json.maxDepth) (hd : s.toJson.depth ≤ d)
    (hr : Padded .snapshot s.toJson r) : Snapshot.decoder d r = .ok s := by
  obtain ⟨d, rfl, hms⟩ := Value.exists_of_depth_record_le hd
  rw [List.forall_mem_cons, List.forall_mem_singleton] at hms
  obtain ⟨d, rfl, ha⟩ := exists_of_depth_map_le (fun us => .record [("units", unitsToJson us)]) hms.1
  obtain ⟨d', hd', hm⟩ := exists_of_depth_members_le hms.2
  cases hd'
  have hmax : d ≤ Json.maxDepth := by omega
  have hmachines := Machine.decoderTo_of_mem s.machines hs.2 fun e he => ⟨Nat.le_trans (hm e he) hmax, hm e he⟩
  rw [toJson, Machine.members_eq_map] at hr
  refine Fills.record ?_ ⟨rfl, by simp [field]⟩ (by decide) (by simp) hr
  refine .field rfl rfl (fun _ => ?_) (.field rfl rfl (fun _ => ?_) (.nil _))
  · exact table_of_padded (fun us => .record [("units", unitsToJson us)]) fun e he _ => unitsDecoder_of_padded e.2 (ha e he)
  · exact entries_of_padded Machine.toJson hs.1 hmachines

/-! ## Reports -/

theorem Snapshot.ofReport_of_padded {s : Snapshot} (hs : s.Sorted) (hd : s.toJson.depth ≤ Json.maxDepth)
    {bs : List UInt8} (hb : Reading.ofBytes bs = (r, true)) (hr : Padded .snapshot s.toJson r) :
    Snapshot.ofReport bs = .ok s := by
  simp only [ofReport, Decoder.decode, hb, Snapshot.decoder_of_padded hs (Nat.le_refl _) hd hr]
  rfl

/-- A snapshot whose report does not nest too deep is read as it was written. So is every text that holds the report with
further members in its records, however it is laid out and whatever the order of its tables. -/
theorem Snapshot.ofReport_toJson {s : Snapshot} (hs : s.Sorted) (hd : s.toJson.depth ≤ Json.maxDepth) :
    Snapshot.ofReport (Text.Utf8.encode s.toJson.compact) = .ok s ∧
      ∀ bs r, Reading.ofBytes bs = (r, true) → Padded .snapshot s.toJson r → Snapshot.ofReport bs = .ok s :=
  ⟨ofReport_of_padded hs hd (Reading.ofBytes_compact s.toJson) s.padded_self, fun _ _ => ofReport_of_padded hs hd⟩

/-- Whatever has been read can be written and read again. -/
theorem Snapshot.ofReport_toJson_of_ofReport {bs : List UInt8} {s : Snapshot} (h : Snapshot.ofReport bs = .ok s) :
    Snapshot.ofReport (Text.Utf8.encode s.toJson.compact) = .ok s :=
  have ⟨hs, hd⟩ := sorted_of_ofReport h
  ofReport_of_padded hs hd (Reading.ofBytes_compact s.toJson) s.padded_self

/-- A machine with a container whose id is the name of a field. -/
def oneContainer : Snapshot where
  machines := [("0", { hostname := "n0", containers := [("hostname", { dnsName := "c0" })] })]

/-- A report of it with further members in the records. -/
def longReport : Value :=
  .record [
    ("model", .record [("hostname", .str "k8s")]),
    ("applications", .record []),
    ("machines", .record [
      ("0", .record [
        ("hostname", .str "n0"), ("constraints", .list [.null, .num 2]), ("dns-name", .str ""), ("instance-id", .str ""),
        ("containers", .record [
          ("hostname", .record [
            ("hostname", .str ""), ("dns-name", .str "c0"), ("instance-id", .str ""), ("machine", .null)])])])]),
    ("controller", .bool true)]

theorem padded_longReport : Padded .snapshot oneContainer.toJson longReport.reading := by
  have hunknown : ∀ (p : Part) (k : String) (v : Value), k ∉ p.names → v.reading.whole = true →
      Json.Decoder.Unknown p.names (some k, v.reading) := fun p k v hk hv => ⟨⟨k, rfl, hk⟩, hv⟩
  have hend : ∀ p : Part, MembersPadded p [] [] := fun p => membersPadded_self (List.forall_mem_nil _)
  refine ⟨_, ?_, rfl⟩
  refine membersPadded_insert (hunknown _ "model" (.record [("hostname", .str "k8s")]) (by decide) rfl) [] _ ?_
  refine membersPadded_insert (hunknown _ "controller" (.bool true) (by decide) rfl) [_, _] [] ?_
  refine membersPadded_cons rfl ⟨_, _, rfl, .rfl, rfl⟩ (membersPadded_cons rfl ?_ (hend _))
  refine ⟨_, _, ⟨_, _, rfl, ⟨_, ?_, rfl⟩, rfl⟩, .rfl, rfl⟩
  refine membersPadded_insert (hunknown _ "constraints" (.list [.null, .num 2]) (by decide) rfl) [_] _ ?_
  refine membersPadded_cons rfl (padded_text_self _) <| membersPadded_cons rfl (padded_text_self _) <|
    membersPadded_cons rfl (padded_text_self _) <| membersPadded_cons rfl ?_ (hend _)
  refine ⟨_, _, ⟨_, _, rfl, ⟨_, ?_, rfl⟩, rfl⟩, .rfl, rfl⟩
  refine membersPadded_insert (hunknown _ "machine" .null (by decide) rfl) [_, _, _] [] ?_
  exact membersPadded_cons rfl (padded_text_self _) <| membersPadded_cons rfl (padded_text_self _) <|
    membersPadded_cons rfl (padded_text_self _) (hend _)

theorem Snapshot.ofReport_toJson_oneContainer :
    Snapshot.ofReport (Text.Utf8.encode longReport.compact) = .ok oneContainer := by
  have hs : oneContainer.Sorted := by simp [oneContainer, Sorted, Machine.Sorted, Machine.AllSorted]
  have hd : oneContainer.toJson.depth ≤ Json.maxDepth := by decide
  exact (ofReport_toJson hs hd).2 _ _ (Reading.ofBytes_compact longReport) padded_longReport

end NodeGroups.Fleet
