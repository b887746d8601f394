import NodeGroups.Fleet.Script
import NodeGroups.Juju.Host
import NodeGroups.Proofs.Fleet.Report
import NodeGroups.Proofs.Fleet.Told
import NodeGroups.Proofs.Juju.Recording
import NodeGroups.Proofs.Manager.Life

/-!
# Scripts in place of programs

A fleet with a script stands in for one that is reached through programs if its answers are those that the programs stand
for. A program that prints a report stands for what the report tells. To a request for more or fewer units that a program
has carried out, the script may answer anything. Main statement: `live_scripted`.
-/

namespace NodeGroups
open Fleet (IdentitySource Outcome Removal Request Script Snapshot)
open Operation

/-! ## Scripts -/

namespace Fleet.Script

/-- The script of one reply. -/
def single : (r : Request) → Outcome r → Script
  | .status _, o => { status := [{ outcome := some o }] }
  | .addUnits .., o => { addUnits := [{ outcome := some o }] }
  | .destroyUnits .., o => { destroyUnits := [{ outcome := some o }] }

theorem reply_single (r : Request) (o : Outcome r) (s : Script) : (single r o ++ s).reply r = (s, { outcome := some o }) := by
  cases r <;> rfl

end Fleet.Script

namespace Juju

variable {j : Juju} {φ : Type}

/-- An answer for the request that a program stands for which has ended so. -/
inductive StandsFor (j : Juju) : (r : Request) → Ending → Outcome r → Prop
  | decoded {patterns} {o : Output} {s} : o.code = some 0 → Fleet.Reports o.stdout s →
      StandsFor j (.status patterns) (.ended o) (.ok s)
  /-- The fault at which decoding stops is only named in the text of the error. -/
  | undecodable {patterns} {o : Output} {fault} : o.code = some 0 → (∀ s, ¬ Fleet.Reports o.stdout s) →
      Snapshot.ofReport o.stdout = .error fault → StandsFor j (.status patterns) (.ended o) (.error (.decode fault.describe))
  | added {application count} {o : Output} (names : List String) : o.code = some 0 →
      StandsFor j (.addUnits application count) (.ended o) (.ok names)
  | removed {units storage force} {o : Output} (removals : List Removal) : o.code = some 0 →
      StandsFor j (.destroyUnits units storage force) (.ended o) (.ok removals)
  | failed {r} {o : Output} : o.code ≠ some 0 →
      StandsFor j r (.ended o)
        (.error (.command (commandName r) (o.code.map Int.ofNat) (Text.trim (Text.Utf8.repair o.stderr))))
  | notStarted {r reason} :
      StandsFor j r (.notStarted reason) (.error (.transport ("failed to execute " ++ j.binary ++ ": " ++ reason)))

theorem StandsFor.seen_eq {r : Request} {e : Ending} {o : Outcome r} (h : StandsFor j r e o) :
    seen r o = seen r (j.outcome r e) := by
  cases h with
  | decoded hc hs => simp only [outcome, if_pos hc, success, Fleet.ofReport_eq_ok_iff.mpr hs, Except.mapError]
  | undecodable hc _ hs => simp only [outcome, if_pos hc, success, hs, Except.mapError]
  | added _ hc | removed _ hc =>
      rw [outcome, if_pos hc]
      rfl
  | failed hc => rw [outcome, if_neg hc]
  | notStarted => rfl

/-- Every program stands for some answer. -/
theorem exists_standsFor (j : Juju) (r : Request) (e : Ending) : ∃ o, StandsFor j r e o := by
  cases e with
  | notStarted reason => exact ⟨_, .notStarted⟩
  | ended o =>
      by_cases hc : o.code = some 0
      · cases r with
        | status =>
            cases hs : Snapshot.ofReport o.stdout with
            | ok s => exact ⟨_, .decoded hc (Fleet.ofReport_eq_ok_iff.mp hs)⟩
            | error =>
                refine ⟨_, .undecodable hc (fun s ht => ?_) hs⟩
                cases hs.symm.trans (Fleet.ofReport_eq_ok_iff.mpr ht)
        | addUnits => exact ⟨_, .added [] hc⟩
        | destroyUnits => exact ⟨_, .removed [] hc⟩
      · exact ⟨_, .failed hc⟩

/-- The script begins with answers that the programs stand for, in their order, and this is the rest of it. -/
inductive Scripted (j : Juju) : List (Execution Unit) → Script → Script → Prop
  | nil {rest} : Scripted j [] rest rest
  | cons {x xs script rest o} : StandsFor j x.request x.ending o → Scripted j xs script rest →
      Scripted j (x :: xs) (.single x.request o ++ script) rest

theorem exists_scripted (j : Juju) (rest : Script) : (xs : List (Execution Unit)) → ∃ script, Scripted j xs script rest
  | [] => ⟨rest, .nil⟩
  | x :: xs => by
      obtain ⟨script, hs⟩ := exists_scripted j rest xs
      obtain ⟨o, ho⟩ := exists_standsFor j x.request x.ending
      exact ⟨_, .cons ho hs⟩

theorem Scripted.standsIn {xs : List (Execution Unit)} {script rest : Script} (h : Scripted j xs script rest) :
    StandsIn Script.one script (xs.map (·.event fun _ => j)) rest := by
  induction h with
  | nil => exact .nil
  | @cons x xs script rest o ho _ ih =>
      have hr : (Script.single x.request o ++ script).reply x.request = (script, { outcome := some o }) :=
        Script.reply_single ..
      refine .call (congrArg (·.2.outcome) hr) ho.seen_eq ?_
      rwa [Script.one, hr]

/-! ## Managers -/

/-- How a program is called for a request of a manager. -/
inductive Calls (model application : String) : Request → List String → Prop
  | status : Calls model application (.status [application]) ["status", "-m", model, "--format=json", application]
  | addUnits (count : Nat) :
      Calls model application (.addUnits application count) ["add-unit", "-m", model, "-n", toString count, application]
  | destroyUnits (id : String) :
      Calls model application (.destroyUnits [id] false false) ["remove-unit", "-m", model, "--no-prompt", id]

theorem calls_of_wants {application : String} {r : Request} (h : Manager.Wants application r) :
    Calls j.model application r (j.arguments r) := by
  cases h with
  | status => exact .status
  | addUnits count => exact .addUnits count
  | destroyUnits id => exact .destroyUnits id

/-- A manager whose fleet is reached through programs lives the same life with any script of answers that the programs
stand for, in whatever order it goes over units with different names. One program has been run for each of its calls. Among
the reports are those that are written for snapshots. -/
theorem live_scripted (settings : Settings) (run : Runner φ) (s : φ) (source : IdentitySource)
    (model application : String) (is : List Manager.Instruction) :
    let j := ofSettings settings model
    let l := Manager.live source model application is (run.recorded.fleets fun _ => j) (s, [])
    (∃ xs : List (Execution Unit),
      l.fleets.2 = xs.map (·.entry fun _ => j) ∧ calls l.events = xs.map (·.event fun _ => j) ∧
      (∀ x ∈ xs, Calls (settings.controller.elim model fun c => c ++ ":" ++ model) application x.request
        (j.invocation x.request).arguments) ∧
      (∀ rest, ∃ script, Scripted j xs script rest) ∧
      ∀ script rest js, Scripted j xs script rest → l.Matches js →
        let l' := Manager.live source model application js Script.one script
        l'.start = l.start ∧ List.Forall₂ (Step.Accords fun d i => d.command.Matches d.before i) l.turns l'.turns ∧
          l'.fleets = rest) ∧
    ∀ t : Snapshot, t.Sorted → t.toJson.depth ≤ Json.maxDepth →
      Fleet.Reports (Text.Utf8.encode t.toJson.compact) t := by
  intro j l
  refine ⟨?_, fun t ht hd => ?_⟩
  · obtain ⟨xs, hr, hc⟩ := exists_executions (Manager.replies_live source model application is
      (run.recorded.fleets fun _ => j) (s, []))
    refine ⟨xs, hr, hc, fun x hx => ?_, fun rest => exists_scripted j rest xs, fun script rest js hs hm => ?_⟩
    · have hm : x.event (fun _ => j) ∈ l.events := by
        have hm := List.mem_map_of_mem (f := (·.event fun _ => j)) hx
        rw [← hc] at hm
        exact (List.mem_filter.mp hm).1
      exact calls_of_wants (j := j) (Manager.wants_of_live hm)
    · refine Manager.live_of_standsIn ?_ hm
      rw [hc]
      exact hs.standsIn
  · have hb := Json.Reading.ofBytes_compact t.toJson
    exact Fleet.ofReport_eq_ok_iff.mp (Snapshot.ofReport_of_padded ht hd hb t.padded_self)

/-- A report that says no more of two units than on which machines they are. -/
def shortReport : Json.Value :=
  .record [
    ("applications", .record [("app", .record [("units", .record [
      ("app/0", .record [("machine", .str "0")]), ("app/1", .record [("machine", .str "1")])])])]),
    ("machines", .record [("0", .record [("hostname", .str "n0")]), ("1", .record [("hostname", .str "n1")])])]

/-- A host on which units are reported twice, and then only a part of a report is printed. No unit is removed. -/
def failingHost : Host where
  plan :=
    let report := Text.Utf8.encode shortReport.compact
    [{ stdout := report }, { stdout := report }, {}, { stdout := report.take 20 },
      { stderr := Text.Utf8.encode " in use\n", code := some 1 }]

/-- A manager that goes over units in that order is to add a unit on that host, and to remove another. -/
def failingLife (scan : Manager.Scan) : Manager.Life (Host × List (Invocation × Ending)) :=
  Manager.live .hostname "m" "app" [⟨.scaleUp 1, scan⟩, ⟨.scaleDown "n1", scan⟩]
    (Host.run.recorded.fleets fun _ => ofSettings { controller := some "c" } "m") (failingHost, [])

/-- There are scripts with which a manager that goes over units in another order gets the same errors and marks the same
unit. -/
theorem live_scripted_failing :
    (failingLife .ascending).fleets.2.map (·.1.arguments) =
        [["status", "-m", "c:m", "--format=json", "app"], ["status", "-m", "c:m", "--format=json", "app"],
          ["add-unit", "-m", "c:m", "-n", "1", "app"], ["status", "-m", "c:m", "--format=json", "app"],
          ["remove-unit", "-m", "c:m", "--no-prompt", "app/1"]] ∧
      (failingLife .ascending).turns.map (·.value) =
        [some (.error (.fleet (.decode "not a JSON text"))),
          some (.error (.fleet (.command "juju remove-unit" (some 1) "in use")))] ∧
      ∃ script, List.Forall₂ (fun d d' => d'.value = d.value ∧ d'.after = d.after) (failingLife .ascending).turns
        (Manager.live .hostname "m" "app" [⟨.scaleUp 1, .descending⟩, ⟨.scaleDown "n1", .descending⟩]
          Script.one script).turns := by
  refine ⟨by decide +kernel, by decide +kernel, ?_⟩
  obtain ⟨⟨xs, -, -, -, hx, hl⟩, -⟩ := live_scripted { controller := some "c" } Host.run failingHost .hostname "m" "app"
    [⟨.scaleUp 1, .ascending⟩, ⟨.scaleDown "n1", .ascending⟩]
  obtain ⟨script, hs⟩ := hx {}
  have hm : (failingLife .ascending).Matches [⟨.scaleUp 1, .descending⟩, ⟨.scaleDown "n1", .descending⟩] :=
    fun _ _ => Manager.matches_of_unambiguous (by decide +kernel) (by decide +kernel)
  exact ⟨script, (hl script {} _ hs hm).2.1.imp fun _ _ h => ⟨h.value, h.after⟩⟩

end Juju
end NodeGroups
