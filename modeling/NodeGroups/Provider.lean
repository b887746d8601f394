import NodeGroups.Group

/-! Providers, which hold all node groups. Every group has a fleet of its own, known by the group's place. -/
namespace NodeGroups

structure Provider where
  groups : List Group

namespace Provider

abbrev Op (α : Type) : Type := Operation Nat Provider (Except Error α)

def name : String := "juju"

/-! ## Start -/

/-- Sets up a group for each spec behind those already set up, up to the first failure. -/
def startFrom (source : Fleet.IdentitySource) (groups : List Group) :
    List Spec → Operation Nat Unit (Except Error Provider)
  | [] => .done () (.ok ⟨groups⟩)
  | spec :: rest =>
    (Manager.init source spec.model spec.application).bindIn (fun _ => groups.length) id fun _ result =>
      match result with
      | .ok m => startFrom source (groups ++ [.ofManager spec m]) rest
      | .error e => .done () (.error (.start spec.id e))

def start (source : Fleet.IdentitySource) (specs : List Spec) : Operation Nat Unit (Except Error Provider) :=
  startFrom source [] specs

/-! ## Views -/

def group? (p : Provider) (id : String) : Option Group := p.groups.find? (·.id == id)

def group (p : Provider) (id : String) : Except Error Group := (p.group? id).elim (.error (.groupNotFound id)) .ok

/-- The first group that has the node. -/
def groupOf? (p : Provider) (node : String) : Option Group := p.groups.find? (·.contains node)

def summaries (p : Provider) : List Group.Summary := p.groups.map (·.summary)

/-! ## Operations -/

/-- An operation on the group of that id. -/
def onGroup {α : Type} (p : Provider) (id : String) (f : Group → Group.Op α) : Op α :=
  match p.groups.findFinIdx? (·.id == id) with
  | some i => (f p.groups[i]).within (fun _ => i) fun g => ⟨p.groups.set i g⟩
  | none => .done p (.error (.groupNotFound id))

/-- Refreshes the groups `rest` behind others. Every group is tried, and the first failure is the outcome. -/
def refreshFrom (before : List Group) (failure : Option Error) : List Group → Op Unit
  | [] => .done ⟨before⟩ (failure.elim (.ok ()) .error)
  | g :: rest =>
    g.refresh.bindIn (fun _ => before.length) (fun g => ⟨before ++ g :: rest⟩) fun g result =>
      match result with
      | .ok () => refreshFrom (before ++ [g]) failure rest
      | .error e =>
        .warn (.groupRefreshFailed g.id e.message) (refreshFrom (before ++ [g]) (failure.or (some e)) rest)

def refresh (p : Provider) : Op Unit := refreshFrom [] none p.groups

end Provider
end NodeGroups
