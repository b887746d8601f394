import NodeGroups.Json.Token

/-! JSON texts read as far as they can be. A text that breaks off is read up to there, so that a decoder can tell
which fault comes first. -/
namespace NodeGroups.Json

/-- A value that was read. A list or record that is not `closed` holds what was read before the text broke off. -/
inductive Reading where
  | null
  | bool (b : Bool)
  | num (n : Numeral)
  | str (s : Option String)
  | list (items : List Reading) (closed : Bool)
  | record (members : List (Option String × Reading)) (closed : Bool)
  /-- No value where one has to be. -/
  | broken

namespace Reading

instance : Inhabited Reading := ⟨null⟩

/-- The text did not break off inside the value. -/
def whole : Reading → Bool
  | list _ closed => closed
  | record _ closed => closed
  | broken => false
  | _ => true

/-- A list or record around the place that is read, with what was read of it, latest first. -/
inductive Frame where
  | list (items : List Reading)
  | record (members : List (Option String × Reading))
  /-- Inside the member of that key. -/
  | member (members : List (Option String × Reading)) (key : Option String)

/-- What may come next: a value, the first part of what was just opened, the part after a value, a key, or the
colon after one. -/
inductive Expect where
  | value
  | first
  | next
  | key
  | colon
  deriving DecidableEq, Repr

/-- The frame after a value was read in it. -/
def Frame.add (v : Reading) : Frame → Frame
  | list items => list (v :: items)
  | record members => record members
  | member members key => record ((key, v) :: members)

/-- What was read of the frame as a value. -/
def Frame.close (closed : Bool) : Frame → Reading
  | list items => .list items.reverse closed
  | record members => .record members.reverse closed
  | member members key => .record ((key, broken) :: members).reverse closed

/-- The text breaks off inside the frames, innermost first. -/
def breakOff : List Frame → Reading
  | [] => broken
  | f :: rest => rest.foldl (fun v g => (g.add v).close false) (f.close false)

/-- What one token leads to. -/
inductive Step where
  /-- The outermost value is complete. The rest of the text is handed back. -/
  | done (value : Reading)
  | go (frames : List Frame) (expect : Expect)
  /-- The token cannot stand here. -/
  | stop

/-- A complete value goes into the innermost open frame. -/
def complete (v : Reading) : List Frame → Step
  | [] => .done v
  | f :: rest => .go (f.add v :: rest) .next

/-- A token where a value may start. -/
def startValue (frames : List Frame) : Token → Step
  | .null => complete null frames
  | .bool b => complete (bool b) frames
  | .num n => complete (num n) frames
  | .str s => complete (str s) frames
  | .openList => .go (.list [] :: frames) .first
  | .openRecord => .go (.record [] :: frames) .first
  | _ => .stop

def step (frames : List Frame) (expect : Expect) (t : Token) : Step :=
  match expect, frames, t with
  | .value, _, _ => startValue frames t
  | .first, .list _ :: rest, .closeList => complete (list [] true) rest
  | .first, .list _ :: _, _ => startValue frames t
  | .first, .record _ :: rest, .closeRecord => complete (record [] true) rest
  | .first, .record ms :: rest, .str k => .go (.member ms k :: rest) .colon
  | .key, .record ms :: rest, .str k => .go (.member ms k :: rest) .colon
  | .colon, .member _ _ :: _, .colon => .go frames .value
  | .next, .list _ :: _, .comma => .go frames .value
  | .next, f@(.list _) :: rest, .closeList => complete (f.close true) rest
  | .next, .record _ :: _, .comma => .go frames .key
  | .next, f@(.record _) :: rest, .closeRecord => complete (f.close true) rest
  | _, _, _ => .stop

/-- Reads one value, and gives the tokens behind it. -/
def run (frames : List Frame) (expect : Expect) : List Token → Reading × List Token
  | [] => (breakOff frames, [])
  | t :: ts =>
    match step frames expect t with
    | .done v => (v, ts)
    | .go frames expect => run frames expect ts
    | .stop => (breakOff frames, [])

/-- The value of a text, and whether nothing follows it. -/
def ofBytes (bs : List UInt8) : Reading × Bool :=
  let (v, rest) := run [] .value (Token.ofBytes bs)
  (v, rest.isEmpty)

end Reading
end NodeGroups.Json
