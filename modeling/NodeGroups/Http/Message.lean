import NodeGroups.Json.Value

/-! HTTP requests and responses, as far as they matter here. -/
namespace NodeGroups.Http

structure Request where
  method : String
  /-- Path and query, or a whole address, as they were sent. -/
  target : String
  contentType : Option String
  body : List UInt8

/-- Spaces and tabs around the value of a header are no part of it. -/
def fieldValue (s : String) : String :=
  let isSpace (c : Char) : Bool := c == ' ' || c == '\t'
  String.ofList ((s.toList.dropWhile isSpace).reverse.dropWhile isSpace).reverse

/-- A request as it is taken from a connection. -/
def Request.received (r : Request) : Request := { r with contentType := r.contentType.map fieldValue }

structure Response where
  status : Nat
  /-- Absent if the body is not JSON. -/
  body : Option Json.Value := none

end NodeGroups.Http
