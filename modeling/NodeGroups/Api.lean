import NodeGroups.Api.Route
import NodeGroups.Handle
import NodeGroups.Http.Media
import NodeGroups.Http.Message
import NodeGroups.Http.Percent
import NodeGroups.Json.Decoder

/-! The HTTP API of a provider. -/
namespace NodeGroups.Api
open Http (Request Response)
open Json (Decoder Value)
open Operation (Event Fleets)

/-! ## Requests -/

/-- What a request asks for. -/
inductive Action where
  | health
  | groups
  | group (id : String)
  | nodes (id : String)
  | increaseSize (id : String) (delta : Nat)
  | deleteNodes (id : String) (nodes : List String)
  | decreaseTarget (id : String) (delta : Nat)
  | groupOfNode (node : String)
  | refresh
  deriving DecidableEq, Repr

/-- How much a size is to change. -/
def delta : Decoder Nat := .record [(Decoder.field "delta" .natural fun v _ => v).needed] 0

/-- The nodes that are to go. -/
def nodes : Decoder (List String) := .record [(Decoder.field "nodes" (.list .string) fun v _ => v).needed] []

/-- A parameter in a path has to be UTF-8. -/
def parameter (raw : String) : Except Nat String := (Http.Percent.decode? raw).elim (.error 400) .ok

/-- A body of more bytes is not read. -/
def maxBody : Nat := 2097152

/-- Reads the body, or gives the status that says why it cannot be read. -/
def body {α : Type} (value : Decoder α) (r : Request) : Except Nat α :=
  if !r.contentType.any Http.Media.isJson then .error 415
  else if maxBody < r.body.length then .error 413
  else
    (value.decode r.body).mapError fun
      | .form => 400
      | .shape => 422

/-- What a request to a route asks for, or the status that rejects it. -/
def actionOn (r : Request) : Route → Except Nat Action
  | .health => .ok .health
  | .groups => .ok .groups
  | .group id => return .group (← parameter id)
  | .nodes id => return .nodes (← parameter id)
  | .increaseSize id => return .increaseSize (← parameter id) (← body delta r)
  | .deleteNodes id => return .deleteNodes (← parameter id) (← body nodes r)
  | .decreaseTarget id => return .decreaseTarget (← parameter id) (← body delta r)
  | .groupOfNode node => return .groupOfNode (← parameter node)
  | .refresh => .ok .refresh

def action (r : Request) : Except Nat Action :=
  match Route.ofTarget? r.target with
  | none => .error 404
  | some route => if route.allows r.method then actionOn r route else .error 405

/-! ## Answers -/

def healthReport : Value := .record [("status", .str "ok"), ("provider", .str Provider.name)]

def summaries (p : Provider) : Value := .list (p.summaries.map (·.toJson))

/-- An operation that only looks at the provider. -/
def look (p : Provider) (value : Except Provider.Error Value) : Provider.Op Value := .done p value

/-- Changes a group and reports on it. -/
def change (p : Provider) (id : String) (f : Group → Group.Op Unit) : Provider.Op Value :=
  p.onGroup id fun g => (f g).bind fun g result => .done g (result.map fun () => g.summary.toJson)

def perform (p : Provider) : Action → Provider.Op Value
  | .health => look p (.ok healthReport)
  | .groups => look p (.ok (summaries p))
  | .group id => look p ((p.group id).map (·.summary.toJson))
  | .nodes id => look p ((p.group id).map fun g => .list (g.nodes.map (·.toJson)))
  | .increaseSize id delta => change p id (·.increaseSize delta)
  | .deleteNodes id nodes => change p id (·.deleteNodes nodes)
  | .decreaseTarget id delta => change p id (·.decreaseTarget delta)
  | .groupOfNode node =>
    look p ((p.groupOf? node).elim (.error (.manager (.unitNotFound node))) fun g => .ok g.summary.toJson)
  | .refresh => p.refresh.bind fun p result => .done p (result.map fun () => summaries p)

def statusOf : Provider.Error → Nat
  | .groupNotFound _ | .manager (.unitNotFound _) => 404
  | .invalidDelta _ | .increaseTooLarge .. | .decreaseTooLarge .. | .wouldDeleteNodes .. => 400
  | .manager (.fleet _) | .start .. => 502
  | .timeout _ => 504
  | .task _ => 500

def respond : Except Provider.Error Value → Response
  | .ok data => ⟨200, some (.record [("success", .bool true), ("data", data)])⟩
  | .error e => ⟨statusOf e, some (.record [("success", .bool false), ("error", .str e.message)])⟩

/-- Failures that are not the client's are logged. -/
def complaints : Except Provider.Error Value → List Notice
  | .error e => if 500 ≤ statusOf e then [.requestFailed e.message (statusOf e)] else []
  | .ok _ => []

/-! ## Exchanges -/

/-- How a request was answered. -/
structure Exchange (φ : Type) where
  handle : Handle
  fleets : φ
  response : Response
  events : List (Event Nat) := []

/-- Health is reported without the provider. -/
def exchange {φ : Type} (h : Handle) (reply : Fleets φ Nat) (fleets : φ) : Action → Exchange φ
  | .health => { handle := h, fleets, response := respond (.ok healthReport) }
  | action =>
    let c := h.call reply fleets fun p => perform p action
    { handle := c.handle, fleets := c.fleets, response := respond c.answer
      events := c.events ++ (complaints c.answer).map .warn ++ c.afterwards }

/-- Answers a request. A request for the head of an answer is handled as one for all of it. -/
def answer {φ : Type} (h : Handle) (reply : Fleets φ Nat) (fleets : φ) (r : Request) : Exchange φ :=
  match action r with
  | .error status => { handle := h, fleets, response := { status } }
  | .ok action =>
    let x := exchange h reply fleets action
    if r.method == "HEAD" then { x with response := { status := x.response.status } } else x

end NodeGroups.Api
