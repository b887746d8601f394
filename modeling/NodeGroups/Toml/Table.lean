import NodeGroups.Toml.Value

/-! How tables come together from keys and headers. -/
namespace NodeGroups.Toml.Entries

/-- Changes the value of a key, or sets it. -/
def update (k : String) (f : Option Value → Option Value) (es : Entries) : Option Entries :=
  match es.lookup k with
  | none => (f none).map fun v => es ++ [(k, v)]
  | some old => (f (some old)).map fun v => es.map fun e => if e.1 = k then (k, v) else e

/-- Changes the last table of an array of tables. -/
def updateLast (f : Entries → Option Entries) (elements : List Entries) : Option Value :=
  elements.getLast?.bind fun es => (f es).map fun es => .tables (elements.dropLast ++ [es])

/-- Sets a key that dotted keys lead to. It must not be set yet. Dotted keys pass tables that have no header; the
last table that they lead to has come up by dotted keys only. -/
def assign (path : List String) (k : String) (v : Value) (es : Entries) : Option Entries :=
  match path with
  | [] => es.update k fun old => if old.isNone then some v else none
  | next :: path =>
    es.update next fun
      | none => (assign path k v []).map (.table .dotted)
      | some (.table .dotted inner) => (assign path k v inner).map (.table .dotted)
      | some (.table .implied inner) =>
        if path.isEmpty then none else (assign path k v inner).map (.table .implied)
      | some (.tables elements) => if path.isEmpty then none else updateLast (assign path k v) elements
      | some _ => none

/-- Changes the value of a key that a header leads to. Headers pass all tables but those between braces, and of an
array of tables the last one. -/
def graft (path : List String) (k : String) (f : Option Value → Option Value) (es : Entries) : Option Entries :=
  match path with
  | [] => es.update k f
  | next :: path =>
    es.update next fun
      | none => (graft path k f []).map (.table .implied)
      | some (.table .inline _) => none
      | some (.table origin inner) => (graft path k f inner).map (.table origin)
      | some (.tables elements) => updateLast (graft path k f) elements
      | some _ => none

/-- A key behind the dotted keys before it, and its value. -/
structure Pair where
  path : List String
  key : String
  value : Value

def assignAll (pairs : List Pair) (es : Entries) : Option Entries :=
  pairs.foldlM (fun es p => assign p.path p.key p.value es) es

/-- A header and the pairs below it. -/
structure Section where
  path : List String
  key : String
  /-- The header starts the next table of an array. -/
  repeated : Bool
  pairs : List Pair

/-- The value of a header's key behind its section. A table that was only passed so far can still be opened. -/
def Section.value (s : Section) (old : Option Value) : Option Value :=
  match s.repeated, old with
  | false, none => (assignAll s.pairs []).map (.table .header)
  | false, some (.table .implied es) => (assignAll s.pairs es).map (.table .header)
  | true, none => (assignAll s.pairs []).map fun es => .tables [es]
  | true, some (.tables elements) => (assignAll s.pairs []).map fun es => .tables (elements ++ [es])
  | _, some _ => none

def addSection (es : Entries) (s : Section) : Option Entries := graft s.path s.key s.value es

end NodeGroups.Toml.Entries
