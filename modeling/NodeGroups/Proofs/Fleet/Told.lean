import NodeGroups.Fleet.Report
import NodeGroups.Proofs.Json.Told

/-!
# What a report tells

A report tells a snapshot if it is JSON of the right shape: its records give the fields of a snapshot, of units and of
machines, and its tables list them. A report that tells none cannot be decoded. Main statement: `ofReport_eq_ok_iff`.
-/

namespace NodeGroups.Fleet
open Json (Decoder Reading)
open Json.Decoder (Facet record_eq_ok_iff table_eq_ok_iff entries_eq_ok_iff)
open Json.Reading (Finds Gives Lists finds_congr lists_congr)

variable {d : Nat} {r : Reading}

/-! ## Parts of a report -/

def TextTold (r : Reading) (s : String) : Prop := r = .str (some s)

def Health.Told (r : Reading) (h : Health) : Prop :=
  ∃ given, Gives ["current", "message"] r given ∧ Finds given "current" TextTold "" h.current ∧
    Finds given "message" TextTold "" h.message

def UnitStatus.Told (r : Reading) (s : UnitStatus) : Prop :=
  ∃ given, Gives ["juju-status", "workload-status", "machine"] r given ∧
    Finds given "juju-status" Health.Told {} s.agent ∧ Finds given "workload-status" Health.Told {} s.workload ∧
    Finds given "machine" TextTold "" s.machine

def TableTold {α : Type} (tells : Reading → α → Prop) (r : Reading) (t : Table α) : Prop := Lists tells r t.entries

def UnitsTold (r : Reading) (units : Table UnitStatus) : Prop :=
  ∃ given, Gives ["units"] r given ∧ Finds given "units" (TableTold UnitStatus.Told) ∅ units

/-- A machine is told with the containers on it, if these may be told so. -/
def Machine.ToldWith (containers : Reading → List (String × Machine) → Prop) (r : Reading) (m : Machine) : Prop :=
  ∃ given, Gives ["hostname", "dns-name", "instance-id", "containers"] r given ∧
    Finds given "hostname" TextTold "" m.hostname ∧ Finds given "dns-name" TextTold "" m.dnsName ∧
    Finds given "instance-id" TextTold "" m.instanceId ∧ Finds given "containers" containers [] m.containers

/-- A machine is told whose containers nest at most so many levels. -/
def Machine.Told : Nat → Reading → Machine → Prop
  | 0 => Machine.ToldWith fun _ _ => False
  | levels + 1 => Machine.ToldWith (Lists (Machine.Told levels))

/-- How many levels of containers a report has room for: a machine stands three levels deep, and each level of containers
takes two. -/
def Machine.deepest : Nat := (Json.maxDepth - 3) / 2

def Snapshot.Told (r : Reading) (s : Snapshot) : Prop :=
  ∃ given, Gives ["applications", "machines"] r given ∧
    Finds given "applications" (TableTold UnitsTold) ∅ s.applications ∧
    Finds given "machines" (Lists (Machine.Told Machine.deepest)) [] s.machines

/-- The text holds one JSON value and nothing else, and that tells the snapshot. -/
def Reports (bs : List UInt8) (s : Snapshot) : Prop := ∃ r, Reading.ofBytes bs = (r, true) ∧ s.Told r

/-! ## Decoders -/

theorem string_eq_ok_iff {s : String} : Decoder.string d r = .ok s ↔ TextTold r s := by
  unfold TextTold
  constructor
  · intro h
    cases r with
    | str t =>
        cases t with
        | none => cases h
        | some t =>
            cases h
            rfl
    | _ => cases h
  · rintro rfl
    rfl

def Health.facets : List (Facet Health) := [
  ⟨"current", .string, fun v h => { h with current := v }, (·.current)⟩,
  ⟨"message", .string, fun v h => { h with message := v }, (·.message)⟩]

theorem Health.cover : Facet.Cover Health.facets where
  nodup := by decide
  get_set := by simp [Health.facets]
  get_set_other := by simp [Health.facets]
  ext := by
    rintro ⟨_, _⟩ ⟨_, _⟩ h
    simpa [Health.facets] using h

theorem Health.decoder_eq_ok_iff {h : Health} : Health.decoder (d + 1) r = .ok h ↔ Health.Told r h := by
  refine (record_eq_ok_iff Health.cover).trans (exists_congr fun given => and_congr_right fun _ => ?_)
  rw [Health.facets, List.forall_mem_cons, List.forall_mem_singleton]
  exact and_congr (finds_congr fun _ _ => string_eq_ok_iff) (finds_congr fun _ _ => string_eq_ok_iff)

def UnitStatus.facets : List (Facet UnitStatus) := [
  ⟨"juju-status", Health.decoder, fun v s => { s with agent := v }, (·.agent)⟩,
  ⟨"workload-status", Health.decoder, fun v s => { s with workload := v }, (·.workload)⟩,
  ⟨"machine", .string, fun v s => { s with machine := v }, (·.machine)⟩]

theorem UnitStatus.cover : Facet.Cover UnitStatus.facets where
  nodup := by decide
  get_set := by simp [UnitStatus.facets]
  get_set_other := by simp [UnitStatus.facets]
  ext := by
    rintro ⟨_, _, _⟩ ⟨_, _, _⟩ h
    simpa [UnitStatus.facets] using h

theorem UnitStatus.decoder_eq_ok_iff {s : UnitStatus} : UnitStatus.decoder (d + 2) r = .ok s ↔ UnitStatus.Told r s := by
  refine (record_eq_ok_iff UnitStatus.cover).trans (exists_congr fun given => and_congr_right fun _ => ?_)
  rw [UnitStatus.facets, List.forall_mem_cons, List.forall_mem_cons, List.forall_mem_singleton]
  exact and_congr (finds_congr fun _ _ => Health.decoder_eq_ok_iff) <|
    and_congr (finds_congr fun _ _ => Health.decoder_eq_ok_iff) (finds_congr fun _ _ => string_eq_ok_iff)

theorem tableTold_iff {α : Type} {value : Decoder α} {tells : Reading → α → Prop}
    (h : ∀ v a, value d v = .ok a ↔ tells v a) {t : Table α} :
    Decoder.table value (d + 1) r = .ok t ↔ TableTold tells r t :=
  table_eq_ok_iff.trans (lists_congr h)

def unitsFacets : List (Facet (Table UnitStatus)) := [⟨"units", .table UnitStatus.decoder, fun v _ => v, id⟩]

theorem cover_unitsFacets : Facet.Cover unitsFacets where
  nodup := by decide
  get_set := by simp [unitsFacets]
  get_set_other := by simp [unitsFacets]
  ext a b h := by simpa [unitsFacets] using h

theorem unitsDecoder_eq_ok_iff {units : Table UnitStatus} : unitsDecoder (d + 4) r = .ok units ↔ UnitsTold r units := by
  refine (record_eq_ok_iff cover_unitsFacets).trans (exists_congr fun given => and_congr_right fun _ => ?_)
  rw [unitsFacets, List.forall_mem_singleton]
  exact finds_congr fun _ _ => tableTold_iff fun _ _ => UnitStatus.decoder_eq_ok_iff

/-! ### Machines -/

def Machine.facets (containers : Decoder (List (String × Machine))) : List (Facet Machine) := [
  ⟨"hostname", .string, fun v m => { m with hostname := v }, (·.hostname)⟩,
  ⟨"dns-name", .string, fun v m => { m with dnsName := v }, (·.dnsName)⟩,
  ⟨"instance-id", .string, fun v m => { m with instanceId := v }, (·.instanceId)⟩,
  ⟨"containers", containers, fun v m => { m with containers := v }, (·.containers)⟩]

theorem Machine.cover (containers : Decoder (List (String × Machine))) : Facet.Cover (Machine.facets containers) where
  nodup := by simp [Machine.facets]
  get_set := by simp [Machine.facets]
  get_set_other := by simp [Machine.facets]
  ext := by
    rintro ⟨_, _, _, _⟩ ⟨_, _, _, _⟩ h
    simpa [Machine.facets] using h

theorem Machine.decoderTo_iff_toldWith {levels : Nat} {containers : Reading → List (String × Machine) → Prop}
    (h : ∀ v ms, Decoder.entries (Machine.decoderTo levels) d v = .ok ms ↔ containers v ms) {m : Machine} :
    Machine.decoderTo (levels + 1) (d + 1) r = .ok m ↔ Machine.ToldWith containers r m := by
  refine (record_eq_ok_iff (Machine.cover (.entries (Machine.decoderTo levels)))).trans ?_
  refine exists_congr fun given => and_congr_right fun _ => ?_
  rw [Machine.facets, List.forall_mem_cons, List.forall_mem_cons, List.forall_mem_cons, List.forall_mem_singleton]
  have ht (v : Reading) (s : String) : Decoder.string d v = .ok s ↔ TextTold v s := string_eq_ok_iff
  exact and_congr (finds_congr ht) <| and_congr (finds_congr ht) <| and_congr (finds_congr ht) (finds_congr h)

theorem entries_zero {α : Type} {value : Decoder α} {es : List (String × α)} : Decoder.entries value 0 r ≠ .ok es := by
  cases r <;> nofun

/-- There are enough levels to decode for the depth that is left. -/
theorem Machine.decoderTo_eq_ok_iff {n levels : Nat} (h : n < levels) {m : Machine} :
    Machine.decoderTo levels (2 * n + 1) r = .ok m ↔ Machine.Told n r m := by
  induction n generalizing levels r m with
  | zero =>
      obtain ⟨levels, rfl⟩ := Nat.exists_eq_succ_of_ne_zero (Nat.ne_of_gt h)
      exact Machine.decoderTo_iff_toldWith fun v ms => iff_of_false entries_zero id
  | succ n ih =>
      obtain ⟨levels, rfl⟩ := Nat.exists_eq_succ_of_ne_zero (Nat.ne_of_gt (Nat.zero_lt_of_lt h))
      refine Machine.decoderTo_iff_toldWith fun v ms => ?_
      exact entries_eq_ok_iff.trans (lists_congr fun _ _ => ih (Nat.lt_of_succ_lt_succ h))

/-! ### Snapshots -/

def Snapshot.facets : List (Facet Snapshot) := [
  ⟨"applications", .table unitsDecoder, fun v s => { s with applications := v }, (·.applications)⟩,
  ⟨"machines", .entries Machine.decoder, fun v s => { s with machines := v }, (·.machines)⟩]

theorem Snapshot.cover : Facet.Cover Snapshot.facets where
  nodup := by decide
  get_set := by simp [Snapshot.facets]
  get_set_other := by simp [Snapshot.facets]
  ext := by
    rintro ⟨_, _⟩ ⟨_, _⟩ h
    simpa [Snapshot.facets] using h

theorem Snapshot.decoder_eq_ok_iff {s : Snapshot} : Snapshot.decoder Json.maxDepth r = .ok s ↔ Snapshot.Told r s := by
  refine (record_eq_ok_iff Snapshot.cover).trans (exists_congr fun given => and_congr_right fun _ => ?_)
  rw [Snapshot.facets, List.forall_mem_cons, List.forall_mem_singleton]
  refine and_congr (finds_congr fun _ _ => tableTold_iff fun _ _ => unitsDecoder_eq_ok_iff) (finds_congr fun _ _ => ?_)
  have hd : Machine.deepest < Json.maxDepth := by decide
  exact entries_eq_ok_iff.trans (lists_congr fun _ _ => Machine.decoderTo_eq_ok_iff hd)

/-- Decoding comes to a snapshot just if the report tells it. -/
theorem ofReport_eq_ok_iff {bs : List UInt8} {s : Snapshot} : Snapshot.ofReport bs = .ok s ↔ Reports bs s := by
  simp only [Snapshot.ofReport, Decoder.decode, Except.bind_eq_ok_iff, Snapshot.decoder_eq_ok_iff]
  constructor
  · rintro ⟨s', hs, h⟩
    split at h <;> cases h
    next he => exact ⟨_, Prod.ext rfl he, hs⟩
  · rintro ⟨r, hr, hs⟩
    rw [hr]
    exact ⟨s, hs, rfl⟩

end NodeGroups.Fleet
