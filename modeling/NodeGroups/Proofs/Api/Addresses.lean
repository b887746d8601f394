import NodeGroups.Proofs.Api.Answers
import NodeGroups.Proofs.Config.Specs
import NodeGroups.Proofs.Http.Percent
import NodeGroups.Proofs.Provider.Apart
import NodeGroups.Proofs.Provider.Views
import NodeGroups.Proofs.Text.Written

/-!
# Addresses

Each group and each node has an address of its own: its percent-encoded name stands between the slashes of the path, is taken
for nothing else there, and is decoded to just this name. Main statement: `addressable`.
-/

namespace NodeGroups

theorem Spec.id_ne_empty (s : Spec) : s.id ≠ "" := by
  intro h
  have hl := congrArg String.toList h
  simp [id] at hl

namespace Api
open Http.Percent (isSafe)
open Operation

/-! ## Paths -/

theorem ne_slash_of_isSafe {c : Char} (h : isSafe c = true) : c ≠ '/' := by
  rintro rfl
  cases h

theorem isBreak_of_isSafe {c : Char} (h : isSafe c = true) : Http.Target.isBreak c = false := by
  rw [Http.Target.isBreak, Bool.or_eq_false_iff, beq_eq_false_iff_ne, beq_eq_false_iff_ne]
  constructor <;>
  · rintro rfl
    cases h

/-- A path in which segments follow one another, each behind a slash. -/
def pathOf (segments : List String) : String := "/".intercalate ("" :: segments)

section Path
variable {segments : List String} (hn : segments ≠ []) (hs : ∀ s ∈ segments, ∀ c ∈ s.toList, isSafe c = true)
include hs

theorem isBreak_of_mem_pathOf {c : Char} (hc : c ∈ (pathOf segments).toList) : Http.Target.isBreak c = false := by
  rw [pathOf, String.toList_intercalate] at hc
  rcases Text.mem_or_mem_of_mem_intercalate hc with hc | ⟨part, hp, hc⟩
  · rw [List.mem_singleton.mp hc]
    rfl
  · obtain ⟨s, hm, rfl⟩ := List.mem_map.mp hp
    rcases List.mem_cons.mp hm with rfl | hm
    · cases hc
    · exact isBreak_of_isSafe (hs s hm c hc)

include hn

theorem path_pathOf : Http.Target.path (pathOf segments).toList = (pathOf segments).toList := by
  obtain ⟨s, segments, rfl⟩ := List.exists_cons_of_ne_nil hn
  have hb := fun c => isBreak_of_mem_pathOf (c := c) hs
  obtain ⟨cs, hcs⟩ : ∃ cs, (pathOf (s :: segments)).toList = '/' :: cs := ⟨_, by
    rw [pathOf, String.toList_intercalate, List.map_cons, List.map_cons, List.intercalate_cons_cons]
    rfl⟩
  rw [hcs] at hb ⊢
  rw [Http.Target.path, Http.Target.afterAuthority_slash, List.takeWhile_eq_self_iff]
  exact fun c hc => by rw [hb c hc]; rfl

/-- The segments of a path are found in it again, and nothing of it is taken for a query or a host. -/
theorem segments_pathOf : Route.segments (Http.Target.path (pathOf segments).toList) = "" :: segments := by
  have hsplit : (pathOf segments).toList.splitOn '/' = ("" :: segments).map String.toList := by
    rw [Text.splitOn_eq_iff (by simp)]
    constructor
    · rw [pathOf, String.toList_intercalate]
      rfl
    · intro part hp hc
      obtain ⟨s, hm, rfl⟩ := List.mem_map.mp hp
      rcases List.mem_cons.mp hm with rfl | hm
      · cases hc
      · exact ne_slash_of_isSafe (hs s hm _ hc) rfl
  rw [path_pathOf hn hs, Route.segments, hsplit, List.map_map]
  exact List.map_id'' (fun _ => String.ofList_toList) _

end Path

/-! ## Addresses -/

def groupTarget (id : String) : String := "/api/v1/node-groups/" ++ Http.Percent.encode id

def nodeTarget (node : String) : String := "/api/v1/nodes/" ++ Http.Percent.encode node ++ "/node-group"

theorem groupTarget_eq (id : String) :
    groupTarget id = pathOf ["api", "v1", "node-groups", Http.Percent.encode id] := rfl

theorem nodeTarget_eq (node : String) :
    nodeTarget node = pathOf ["api", "v1", "nodes", Http.Percent.encode node, "node-group"] := by
  have hl : "/node-group" = "/" ++ "node-group" := rfl
  rw [nodeTarget, hl, ← String.append_assoc]
  rfl

theorem parameter_encode (s : String) : parameter (Http.Percent.encode s) = .ok s := by
  rw [parameter, Http.Percent.decode?_encode]
  rfl

/-- An encoded name between words is a segment of its own. -/
theorem ofTarget?_pathOf (before after : List String) (hw : (before ++ after).all (·.toList.all isSafe) = true)
    (name : String) :
    Route.ofTarget? (pathOf (before ++ Http.Percent.encode name :: after)) =
      Route.ofSegments? ("" :: (before ++ Http.Percent.encode name :: after)) := by
  have hs : ∀ s ∈ before ++ Http.Percent.encode name :: after, ∀ c ∈ s.toList, isSafe c = true := by
    rw [List.all_append, Bool.and_eq_true, List.all_eq_true, List.all_eq_true] at hw
    rw [List.forall_mem_append, List.forall_mem_cons]
    exact ⟨fun s hm => List.all_eq_true.mp (hw.1 s hm), fun _ => Http.Percent.isSafe_of_mem_encode,
      fun s hm => List.all_eq_true.mp (hw.2 s hm)⟩
  rw [Route.ofTarget?, segments_pathOf (by simp) hs]

theorem ofTarget?_groupTarget (id : String) :
    Route.ofTarget? (groupTarget id) = if id = "" then none else some (.group (Http.Percent.encode id)) := by
  have hr (raw : String) : Route.ofSegments? ["", "api", "v1", "node-groups", raw] =
      if raw.isEmpty then none else some (.group raw) := rfl
  rw [groupTarget_eq]
  refine (ofTarget?_pathOf ["api", "v1", "node-groups"] [] rfl id).trans ((hr _).trans ?_)
  simp only [String.isEmpty_iff, Http.Percent.encode_eq_empty_iff]

theorem ofTarget?_nodeTarget (node : String) :
    Route.ofTarget? (nodeTarget node) = some (.groupOfNode (Http.Percent.encode node)) := by
  rw [nodeTarget_eq]
  exact ofTarget?_pathOf ["api", "v1", "nodes"] ["node-group"] rfl node

/-! ## Answers -/

section Answer
variable {φ : Type} {h : Handle} {reply : Fleets φ Nat} {fleets : φ} {contentType : Option String} {body : List UInt8}
  {target id node : String} {a : Action} {v : Except Provider.Error Json.Value} {g : Group}

theorem response_of_look (ha : action { method := "GET", target, contentType, body } = .ok a) (hn : a ≠ .health)
    (hl : perform h.provider a = look h.provider v) :
    (answer h reply fleets { method := "GET", target, contentType, body }).response = respond v := by
  have hc : h.call reply fleets (fun p => perform p a) = _ :=
    Handle.call_of_value (v := v) (by rw [hl]; rfl) (by rw [hl]; rfl)
  rw [answer_of_action ha, exchange_of_ne_health hn, hc]
  rfl

theorem action_groupTarget (hid : id ≠ "") :
    action { method := "GET", target := groupTarget id, contentType, body } = .ok (.group id) := by
  rw [action, ofTarget?_groupTarget, if_neg hid]
  exact congrArg (Except.map Action.group) (parameter_encode id)

theorem action_nodeTarget :
    action { method := "GET", target := nodeTarget node, contentType, body } = .ok (.groupOfNode node) := by
  rw [action, ofTarget?_nodeTarget]
  exact congrArg (Except.map Action.groupOfNode) (parameter_encode node)

/-- A success with the summary of a group. -/
def shows (g : Group) : Http.Response :=
  ⟨200, some (.record [("success", .bool true), ("data", g.summary.toJson)])⟩

theorem response_groupTarget (hid : id ≠ "") (hg : h.provider.group? id = some g) :
    (answer h reply fleets { method := "GET", target := groupTarget id, contentType, body }).response = shows g := by
  have hl : perform h.provider (.group id) = look h.provider (.ok g.summary.toJson) := by
    rw [perform, Provider.group, hg]
    rfl
  exact response_of_look (action_groupTarget hid) (by simp) hl

theorem status_groupTarget_of_none (hg : h.provider.group? id = none) :
    (answer h reply fleets { method := "GET", target := groupTarget id, contentType, body }).response.status = 404 := by
  by_cases hid : id = ""
  · -- without a segment for the group there is no route
    rw [answer, action, ofTarget?_groupTarget, if_pos hid]
  · have hl : perform h.provider (.group id) = look h.provider (.error (.groupNotFound id)) := by
      rw [perform, Provider.group, hg]
      rfl
    rw [response_of_look (action_groupTarget hid) (by simp) hl]
    rfl

theorem response_nodeTarget (hg : h.provider.groupOf? node = some g) :
    (answer h reply fleets { method := "GET", target := nodeTarget node, contentType, body }).response = shows g := by
  have hl : perform h.provider (.groupOfNode node) = look h.provider (.ok g.summary.toJson) := by
    rw [perform, hg]
    rfl
  exact response_of_look action_nodeTarget (by simp) hl

theorem status_nodeTarget_of_none (hg : h.provider.groupOf? node = none) :
    (answer h reply fleets { method := "GET", target := nodeTarget node, contentType, body }).response.status = 404 := by
  have hl : perform h.provider (.groupOfNode node) = look h.provider (.error (.manager (.unitNotFound node))) := by
    rw [perform, hg]
    rfl
  rw [response_of_look action_nodeTarget (by simp) hl]
  rfl

end Answer

/-- A provider has been set up from a configuration whose specs can be read and have different ids, and has worked since.
Getting the address of a group tells about this group, and getting that of a node about the first group that tracks a unit on
a node of the name. Every other text is the name of nothing: its address is that of no group, or no node. -/
theorem addressable {φ : Type} {c : Config} {extra : List String} {specs : List Spec} {source : Fleet.IdentitySource}
    {es₀ : List (Event Nat)} {p₀ : Provider} {steps : List Provider.Turn} {h : Handle} (hc : c.specs extra = .ok specs)
    (h₀ : (Provider.start source specs).Ends es₀ () (some (.ok p₀))) (hs : Session Provider.act p₀ steps h.provider)
    (reply : Fleets φ Nat) (fleets : φ) (contentType : Option String) (body : List UInt8) :
    let response (target : String) :=
      (answer h reply fleets { method := "GET", target, contentType, body }).response
    let tracks (g : Group) (node : String) := ∃ id, g.manager.Named id node
    (∀ g ∈ h.provider.groups, response (groupTarget g.id) = shows g) ∧
      (∀ id, (∀ g ∈ h.provider.groups, g.id ≠ id) → (response (groupTarget id)).status = 404) ∧
      (∀ node, (∃ g ∈ h.provider.groups, tracks g node) →
        ∃ before g after, h.provider.groups = before ++ g :: after ∧ tracks g node ∧ (∀ g' ∈ before, ¬ tracks g' node) ∧
          response (nodeTarget node) = shows g) ∧
      ∀ node, (∀ g ∈ h.provider.groups, ¬ tracks g node) → (response (nodeTarget node)).status = 404 := by
  intro response tracks
  have hi : h.provider.ids = specs.map (·.id) := (Provider.ids_of_session hs).trans (Provider.ends_startFrom.mp h₀).ids_eq
  have hn : h.provider.ids.Nodup := hi ▸ (Config.specs_eq_ok_iff.mp hc).2
  refine ⟨fun g hg => ?_, fun id hid => ?_, fun node hnode => ?_, fun node hnode => ?_⟩
  · have hm : g.id ∈ specs.map (·.id) := hi ▸ List.mem_map_of_mem hg
    obtain ⟨s, -, hs⟩ := List.mem_map.mp hm
    exact response_groupTarget (hs ▸ s.id_ne_empty) (Provider.group?_of_mem hn hg)
  · refine status_groupTarget_of_none (Provider.group?_of_notMem fun hm => ?_)
    obtain ⟨g, hg, he⟩ := List.mem_map.mp hm
    exact hid g hg he
  · cases hg : h.provider.groupOf? node with
    | none =>
        obtain ⟨g, hm, ht⟩ := hnode
        exact absurd (Group.exists_node_eq_some_iff.mpr ht) (Provider.groupOf?_eq_none_iff.mp hg g hm)
    | some g =>
        obtain ⟨before, after, hp, ht, hb⟩ := Provider.groupOf?_eq_some_iff.mp hg
        simp only [Group.exists_node_eq_some_iff] at ht hb
        exact ⟨before, g, after, hp, ht, hb, response_nodeTarget hg⟩
  · refine status_nodeTarget_of_none (Provider.groupOf?_eq_none_iff.mpr fun g hg ht => ?_)
    exact hnode g hg (Group.exists_node_eq_some_iff.mp ht)

/-- The model of the group and the node of its unit have names with separators, percent signs and letters beyond ASCII. -/
def hardNames : Spec := ⟨0, 5, "prod/é 50%", "app"⟩

def hardGroup : Group :=
  .ofManager hardNames (.ofSnapshot .hostname hardNames.model hardNames.application (Manager.listing [("app/0", "n/ö?%41")]))

def overHardGroup : Handle := { provider := ⟨[hardGroup]⟩, timeout := .ofSeconds 5 }

theorem addressable_hardGroup :
    let response (target : String) :=
      (answer overHardGroup Fleet.Script.row [] { method := "GET", target, contentType := none, body := [] }).response
    groupTarget hardGroup.id = "/api/v1/node-groups/juju-prod%2F%C3%A9%2050%25-app" ∧
      response (groupTarget hardGroup.id) = shows hardGroup ∧ response (nodeTarget "n/ö?%41") = shows hardGroup ∧
      (response (groupTarget "juju-prod")).status = 404 ∧ (response (nodeTarget "n/öA")).status = 404 := by
  have hp : Spec.parse "0:5:prod/é 50%:app" = .ok hardNames := by decide +kernel
  have hc : ({ groups := ["0:5:prod/é 50%:app"] } : Config).specs [] = .ok [hardNames] :=
    Config.specs_eq_ok_iff.mpr ⟨.cons hp .nil, List.nodup_singleton _⟩
  have h₀ : (Provider.start .hostname [hardNames]).Ends _ () (some (.ok overHardGroup.provider)) :=
    Provider.ends_startFrom.mpr (.added .done)
  obtain ⟨hg, hn, ht, hf⟩ := addressable hc h₀ .idle Fleet.Script.row [] none []
  have hm : hardGroup ∈ overHardGroup.provider.groups := List.mem_singleton_self _
  have hnamed : hardGroup.manager.Named "app/0" "n/ö?%41" := ⟨_, rfl, by decide +kernel, by decide +kernel⟩
  have hr : ∃ before g after, [hardGroup] = before ++ g :: after ∧ _ := ht "n/ö?%41" ⟨hardGroup, hm, "app/0", hnamed⟩
  obtain ⟨before, g, after, hp, -, -, hr⟩ := hr
  have hgroup : g = hardGroup := by
    rcases List.append_eq_singleton_iff.mp hp.symm with ⟨-, hg⟩ | ⟨-, hg⟩ <;> cases hg
    rfl
  refine ⟨by decide +kernel, hg _ hm, hgroup ▸ hr, hn _ ?_, hf _ ?_⟩
  · exact List.forall_mem_singleton.mpr (by decide +kernel)
  · refine List.forall_mem_singleton.mpr fun ht => ?_
    exact absurd (Manager.isSome_lookup?_iff.mpr ht) (by decide +kernel)

end Api
end NodeGroups
