import NodeGroups.Daemon
import NodeGroups.Juju.Host
import NodeGroups.Proofs.Config.Specs
import NodeGroups.Proofs.Juju.Recording
import NodeGroups.Proofs.Provider.Ending

/-!
# The report on all groups

To report on its groups the daemon runs one program after another, up to the first that prints no snapshot. Main statement:
`launch_status`.
-/

namespace NodeGroups
open Fleet (IdentitySource Snapshot)
open Operation

/-- The snapshot that a program has printed, unless it has failed or its output is no report. -/
def Juju.Ending.snapshot? : Juju.Ending → Option Snapshot
  | .ended o => if o.code = some 0 then (Snapshot.ofReport o.stdout).toOption else none
  | .notStarted _ => none

theorem Juju.toOption_outcome_status (j : Juju) (patterns : List String) (x : Juju.Ending) :
    (j.outcome (.status patterns) x).toOption = x.snapshot? := by
  cases x with
  | notStarted => rfl
  | ended o =>
      rw [outcome, Ending.snapshot?]
      split
      · rw [success]
        cases Snapshot.ofReport o.stdout <;> rfl
      · rfl

namespace Daemon
open Json (Value)
open Juju (Execution Invocation Runner)

/-! ## Programs -/

/-- The program that asks for the status of a group. -/
def inspection (settings : Juju.Settings) (s : Spec) : Invocation where
  binary := settings.binary.getD "juju"
  arguments :=
    ["status", "-m", settings.controller.elim s.model fun c => c ++ ":" ++ s.model, "--format=json", s.application]
  dataDir := settings.dataDir

/-- The programs for the specs have ended so, one after another up to the first that printed no snapshot. -/
inductive Inspects : List Spec → List Juju.Ending → Option (List Snapshot) → Prop
  | done : Inspects [] [] (some [])
  | failed {spec rest x} : x.snapshot? = none → Inspects (spec :: rest) [x] none
  | printed {spec rest x xs s v} : x.snapshot? = some s → Inspects rest xs v →
      Inspects (spec :: rest) (x :: xs) (v.map (s :: ·))

/-- The group that is set up from a snapshot. -/
def groupOf (source : IdentitySource) (spec : Spec) (s : Snapshot) : Group :=
  .ofManager spec (.ofSnapshot source spec.model spec.application s)

theorem client_append (config : Config) (done : List Spec) (spec : Spec) (rest : List Spec) :
    client config (done ++ spec :: rest) done.length = .ofSettings config.juju spec.model := by
  simp [client]

theorem entry_client (config : Config) (done : List Spec) (spec : Spec) (rest : List Spec) (x : Juju.Ending) :
    (⟨done.length, .status [spec.application], x⟩ : Execution Nat).entry (client config (done ++ spec :: rest)) =
      (inspection config.juju spec, x) := by
  rw [Execution.entry, client_append]
  rfl

/-- A start runs the programs for the specs behind those already done. -/
theorem exists_inspects {config : Config} {source : IdentitySource} {groups : List Group} (done : List Spec)
    {specs : List Spec} {es : List (Event Nat)} {w : Option (Except Provider.Error Provider)}
    {xs : List (Execution Nat)} (h : Provider.Starts source groups specs es w) (hl : groups.length = done.length)
    (hx : calls es = xs.map (·.event (client config (done ++ specs)))) :
    ∃ endings v, Inspects specs endings v ∧
      xs.map (·.entry (client config (done ++ specs))) =
        List.zipWith (fun spec x => (inspection config.juju spec, x)) specs endings ∧
      (∀ ss, v = some ss → w = some (.ok ⟨groups ++ List.zipWith (groupOf source) specs ss⟩)) ∧
      (v = none → ∃ e, w = some (.error e)) := by
  induction h generalizing done xs with
  | @done groups =>
      rw [List.map_eq_nil_iff.mp hx.symm]
      refine ⟨[], some [], .done, rfl, fun ss hs => ?_, nofun⟩
      cases hs
      rw [List.zipWith_nil_right, List.append_nil]
  | @failed groups spec rest e =>
      obtain ⟨_, _, rfl, hc, hn⟩ := List.map_eq_cons_iff.mp hx.symm
      obtain rfl := List.map_eq_nil_iff.mp hn
      obtain ⟨x, rfl, ho⟩ := Execution.eq_of_event hc
      rw [hl, client_append] at ho
      cases e with
      | none => cases ho -- however a program ends, the call comes back
      | some e =>
          refine ⟨[x], none, .failed ?_, ?_, nofun, fun _ => ⟨_, rfl⟩⟩
          · rw [← Juju.toOption_outcome_status, ← Option.some.inj ho]
            rfl
          · rw [List.map_singleton, hl, entry_client, List.zipWith_cons_cons, List.zipWith_nil_right]
  | @added groups spec rest s es w _ ih =>
      obtain ⟨_, xs, rfl, hc, hn⟩ := List.map_eq_cons_iff.mp hx.symm
      obtain ⟨x, rfl, ho⟩ := Execution.eq_of_event hc
      rw [hl, client_append] at ho
      have hs : x.snapshot? = some s := by
        rw [← Juju.toOption_outcome_status, ← Option.some.inj ho]
        rfl
      -- the other programs are run for the specs behind this one
      rw [List.map_cons, hl, entry_client]
      rw [List.append_cons] at hn ⊢
      obtain ⟨endings, v, hi, hr, hv, hf⟩ := ih (done ++ [spec]) (by simp [hl]) hn.symm
      refine ⟨x :: endings, _, .printed hs hi, congrArg _ hr, fun ss hss => ?_, ?_⟩
      · obtain ⟨ss, hv', rfl⟩ := Option.map_eq_some_iff.mp hss
        rw [hv ss hv', List.append_assoc]
        rfl
      · exact fun hn => hf (Option.map_eq_none_iff.mp hn)

theorem Inspects.isSome_iff {specs : List Spec} {endings : List Juju.Ending} {v : Option (List Snapshot)}
    (h : Inspects specs endings v) : v.isSome = true ↔ ∀ x ∈ endings, x.snapshot?.isSome = true := by
  induction h with
  | done => simp
  | failed hx => simp [hx]
  | printed hx _ ih => simp [hx, ih]

/-! ## Reports -/

/-- What is reported on a group of which a snapshot shows the units. They stand in ascending order in a table. -/
def entryOf (source : IdentitySource) (spec : Spec) (s : Snapshot) : Value :=
  let units := s.unitsOf spec.application
  .record [
    ("group", .record [("id", .str spec.id), ("model", .str spec.model), ("application", .str spec.application),
      ("min_size", .num spec.minSize), ("max_size", .num spec.maxSize), ("target_size", .num units.size),
      ("size", .num units.size)]),
    ("nodes", .list (units.entries.map fun (id, status) =>
      .record [("unit", .str id), ("node", .ofText? (source.resolve s status)),
        ("phase", .str (if status.isReady then "running" else "creating"))]))]

/-- A node that is resolved has a name. -/
theorem ne_empty_of_resolve {source : IdentitySource} {s : Snapshot} {status : Fleet.UnitStatus} {name : String}
    (h : source.resolve s status = some name) : name ≠ "" := by
  rw [IdentitySource.resolve] at h
  split at h
  · cases h
  · simpa using (Option.filter_eq_some_iff.mp h).2

theorem node_ofSnapshot (source : IdentitySource) (s : Snapshot) (id : String) (status : Fleet.UnitStatus) :
    (let u : TrackedUnit :=
        { externalId := id, phase := .observed status, identity := (source.resolve s status).getD "", status }
      if u.isResolved then some u.identity else none) = source.resolve s status := by
  cases hr : source.resolve s status with
  | none => rfl
  | some name => simp [TrackedUnit.isResolved, ne_empty_of_resolve hr]

theorem name_observed (status : Fleet.UnitStatus) :
    (Phase.observed status).name = if status.isReady then "running" else "creating" := by
  rw [Phase.observed]
  split <;> rfl

theorem size_groupOf (source : IdentitySource) (spec : Spec) (s : Snapshot) :
    (groupOf source spec s).manager.size = (s.unitsOf spec.application).size :=
  List.length_map _

theorem nodes_groupOf (source : IdentitySource) (spec : Spec) (s : Snapshot) :
    (groupOf source spec s).nodes =
      (s.unitsOf spec.application).entries.map fun (id, status) =>
        ⟨id, source.resolve s status, .observed status⟩ := by
  refine (List.map_map ..).trans (List.map_congr_left fun (id, status) _ => ?_)
  exact congrArg (Group.Instance.mk id · _) (node_ofSnapshot source s id status)

theorem groupReport_groupOf (source : IdentitySource) (spec : Spec) (s : Snapshot) :
    groupReport (groupOf source spec s) = entryOf source spec s := by
  have hn : (groupOf source spec s).nodes.map (·.toJson) =
      (s.unitsOf spec.application).entries.map fun (id, status) =>
        .record [("unit", .str id), ("node", .ofText? (source.resolve s status)),
          ("phase", .str (if status.isReady then "running" else "creating"))] := by
    rw [nodes_groupOf, List.map_map]
    refine List.map_congr_left fun (id, status) _ => ?_
    rw [Function.comp_apply, Group.Instance.toJson, name_observed]
  rw [groupReport, hn, entryOf, ← size_groupOf source]
  rfl

theorem report_groupOf (source : IdentitySource) (specs : List Spec) (ss : List Snapshot) :
    report ⟨List.zipWith (groupOf source) specs ss⟩ =
      .record [("provider", .str "juju"), ("node_groups", .list (List.zipWith (entryOf source) specs ss))] := by
  simp only [report, List.map_zipWith, groupReport_groupOf]
  rfl

/-! ## The command -/

/-- The programs that have been run by the end. -/
def Ending.record {φ : Type} : Ending (φ × List (Invocation × Juju.Ending)) → List (Invocation × Juju.Ending)
  | .help | .usage => []
  | .failed s _ | .reported s _ => s.2
  | .serving server => server.condition.2

section Launch
variable {φ : Type} {file : String → Except String (List UInt8)} {o : Options} {config : Config} {specs : List Spec}

theorem load_eq_ok (hc : Config.ofFile o.config (file o.config) = .ok config) (hs : config.specs o.nodes = .ok specs)
    (hn : specs ≠ []) : load file o = .ok (config, specs) := by
  rw [load, hc]
  change Except.bind ((config.specs o.nodes).mapError _) _ = _
  rw [hs]
  exact if_neg (by simpa using hn)

section Outcome
variable {args : List String} {run : Runner φ} {s : φ} (ha : Arguments.parse args = .ok (.status o))
  (hl : load file o = .ok (config, specs))

include ha hl

theorem launch_of_ok {p : Provider}
    (hv : ((Provider.start config.identity specs).run (run.fleets (client config specs)) s).value = some (.ok p)) :
    launch run s file args =
      .reported ((Provider.start config.identity specs).run (run.fleets (client config specs)) s).fleets (report p) := by
  simp only [launch, ha, setUp, hl, hv]

theorem launch_of_error {e : Provider.Error}
    (hv : ((Provider.start config.identity specs).run (run.fleets (client config specs)) s).value = some (.error e)) :
    launch run s file args =
      .failed ((Provider.start config.identity specs).run (run.fleets (client config specs)) s).fleets (.ofStart e) := by
  simp only [launch, ha, setUp, hl, hv]

end Outcome

/-- To report on the groups the daemon has run a program for one after another, and these have ended so and printed
these snapshots. If none has failed, what it reports is in the snapshots. -/
structure Surveyed (config : Config) (specs : List Spec) (e : Ending (φ × List (Invocation × Juju.Ending)))
    (endings : List Juju.Ending) (v : Option (List Snapshot)) : Prop where
  record : e.record = List.zipWith (fun spec x => (inspection config.juju spec, x)) specs endings
  inspects : Inspects specs endings v
  code_eq_zero_iff : e.code = 0 ↔ ∀ x ∈ endings, x.snapshot?.isSome = true
  report : e.code = 0 → ∃ ss t, v = some ss ∧ e = .reported t (.record [("provider", .str "juju"),
    ("node_groups", .list (List.zipWith (entryOf config.identity) specs ss))])

/-- If the configuration and the specs are sound, the daemon asks for the status of one group after another, up to the
first that it does not get. It succeeds just if it gets them all, and then it reports on the groups. -/
theorem launch_status {args : List String} (ha : Arguments.parse args = .ok (.status o))
    (hc : Config.ofFile o.config (file o.config) = .ok config)
    (hs : List.Forall₂ (fun text s => Spec.parse text = .ok s) (config.groups ++ o.nodes) specs)
    (hd : (specs.map (·.id)).Nodup) (hn : specs ≠ []) (run : Runner φ) (s : φ) :
    ∃ endings v, Surveyed config specs (launch run.recorded (s, []) file args) endings v := by
  have hl := load_eq_ok hc (Config.specs_eq_ok_iff.mpr ⟨hs, hd⟩) hn
  let fleets := run.recorded.fleets (client config specs)
  let start := Provider.start config.identity specs
  obtain ⟨xs, hr, hx⟩ := Juju.exists_executions (replies_run fleets start (s, []))
  have hp := Provider.ends_startFrom.mp (Ends.of_run fleets (s, []) start)
  obtain ⟨endings, v, hi, hxs, hv, hf⟩ := exists_inspects [] hp rfl hx
  replace hr : (start.run fleets (s, [])).fleets.2 = _ := hr.trans hxs
  refine ⟨endings, v, ?_⟩
  cases v with
  | none =>
      obtain ⟨err, hw⟩ := hf rfl
      rw [launch_of_error ha hl hw]
      exact ⟨hr, hi, by simp [Ending.code, ← hi.isSome_iff], nofun⟩
  | some ss =>
      rw [launch_of_ok ha hl (hv ss rfl)]
      refine ⟨hr, hi, by simp [Ending.code, ← hi.isSome_iff], fun _ => ?_⟩
      exact ⟨ss, _, rfl, congrArg (Ending.reported _) (report_groupOf config.identity specs ss)⟩

/-- The characters of the report, if there is one. -/
def Ending.chars? {φ : Type} : Ending φ → Option (List Char)
  | .reported _ report => some report.chars
  | _ => none

/-- The first group is configured and the second is given by an option. The status of the second cannot be got. Then both
can be got, and the first lists a unit. -/
theorem launch_status_failing :
    let file : String → Except String (List UInt8) := fun _ => .ok "[[node_groups]]\nspec = \"1:3:m:app\"\n".toUTF8.toList
    let host : Juju.Host := { plan := [{ stdout := "\x7b\x7d".toUTF8.toList }, { code := some 1 }] }
    let e := launch Juju.Host.run.recorded (host, []) file ["status", "--config", "c", "--nodes", "0:2:k:app"]
    let unit : Value := .record [
      ("applications", .record [("app", .record [("units", .record [("app/0", .record [("machine", .str "0")])])])]),
      ("machines", .record [("0", .record [("hostname", .str "n0")])])]
    let host' : Juju.Host := { plan := [{ stdout := unit.compact.toUTF8.toList }, { stdout := "\x7b\x7d".toUTF8.toList }] }
    let e' := launch Juju.Host.run.recorded (host', []) file ["status", "--config", "c", "--nodes", "0:2:k:app"]
    (e.code = 1 ∧ ∃ endings v,
      Surveyed { groups := ["1:3:m:app"] } [⟨1, 3, "m", "app"⟩, ⟨0, 2, "k", "app"⟩] e endings v) ∧
    (e'.chars? = some (Value.record [("provider", .str "juju"), ("node_groups", .list [
        .record [
          ("group", .record [("id", .str "juju-m-app"), ("model", .str "m"), ("application", .str "app"),
            ("min_size", .num 1), ("max_size", .num 3), ("target_size", .num 1), ("size", .num 1)]),
          ("nodes", .list [.record [("unit", .str "app/0"), ("node", .str "n0"), ("phase", .str "creating")]])],
        .record [
          ("group", .record [("id", .str "juju-k-app"), ("model", .str "k"), ("application", .str "app"),
            ("min_size", .num 0), ("max_size", .num 2), ("target_size", .num 0), ("size", .num 0)]),
          ("nodes", .list [])]])]).chars ∧
      ∃ endings ss, Surveyed { groups := ["1:3:m:app"] } [⟨1, 3, "m", "app"⟩, ⟨0, 2, "k", "app"⟩] e' endings (some ss)) := by
  intro file host e unit host' e'
  have ha : Arguments.parse ["status", "--config", "c", "--nodes", "0:2:k:app"] =
      .ok (.status ⟨"c", ["0:2:k:app"]⟩) := rfl
  have hc : Config.ofFile "c" (file "c") = .ok { groups := ["1:3:m:app"] } := by decide +kernel
  have hs : List.Forall₂ (fun text s => Spec.parse text = .ok s) ["1:3:m:app", "0:2:k:app"]
      [⟨1, 3, "m", "app"⟩, ⟨0, 2, "k", "app"⟩] :=
    .cons (by decide +kernel) (.cons (by decide +kernel) .nil)
  have hd : ([⟨1, 3, "m", "app"⟩, ⟨0, 2, "k", "app"⟩] : List Spec).map (·.id) |>.Nodup := by decide +kernel
  refine ⟨⟨by decide +kernel, launch_status ha hc hs hd (List.cons_ne_nil _ _) Juju.Host.run host⟩, by decide +kernel, ?_⟩
  obtain ⟨endings, v, h⟩ := launch_status ha hc hs hd (List.cons_ne_nil _ _) Juju.Host.run host'
  obtain ⟨ss, -, rfl, -⟩ := h.report (by decide +kernel)
  exact ⟨endings, ss, h⟩

end Launch

end Daemon
end NodeGroups
