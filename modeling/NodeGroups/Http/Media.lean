/-! Media types, such as `application/json; charset=utf-8`. -/
namespace NodeGroups.Http.Media

def isTokenChar (c : Char) : Bool := c.isAlphanum || "!#$%&'*+-.^_\x60|~".toList.contains c

/-- May stand between quotes. -/
def isQuotedChar (c : Char) : Bool := 0x20 ≤ c.toNat && c.toNat < 0x7F

/-- What follows the closing quote. The first character between quotes is never the closing one. -/
def afterQuoted : List Char → Option (List Char)
  | [] => none
  | c :: rest =>
    match rest.dropWhile fun d => isQuotedChar d && d != '"' with
    | '"' :: rest => if isQuotedChar c then some rest else none
    | _ => none

/-- What follows the value of a parameter, if it is well-formed: nothing, or the next parameter. -/
def afterValue : List Char → Option (List Char)
  | '"' :: cs =>
    (afterQuoted cs).bind fun rest =>
      match rest.dropWhile (· == ' ') with
      | [] => some []
      | ';' :: rest => some rest
      | _ => none
  | cs =>
    match cs.dropWhile isTokenChar with
    | [] => some []
    | ';' :: rest => if (cs.takeWhile isTokenChar).isEmpty then none else some rest
    | _ => none

/-- The text after a semicolon is a list of parameters. Each one takes at least a character. -/
def areParameters : Nat → List Char → Bool
  | 0, _ => false
  | n + 1, cs =>
    match cs.dropWhile (· == ' ') with
    | [] => true
    | cs =>
      match cs.dropWhile isTokenChar with
      | '=' :: value => !(cs.takeWhile isTokenChar).isEmpty && (afterValue value).any (areParameters n)
      | _ => false

/-- A subtype before and after its last plus sign, if there is one that is not the first character. -/
def splitSuffix (subtype : List Char) : List Char × Option (List Char) :=
  let suffix := (subtype.reverse.takeWhile (· != '+')).reverse
  let stem := subtype.take (subtype.length - suffix.length - 1)
  if stem.isEmpty then (subtype, none) else (stem, some suffix)

def lower (cs : List Char) : List Char := cs.map (·.toLower)

/-- Says that a body is JSON: the type is `application`, and the subtype or its suffix is `json`. -/
def isJson (s : String) : Bool :=
  let cs := s.toList
  match cs.dropWhile isTokenChar with
  | '/' :: rest =>
    let (stem, suffix) := splitSuffix (lower (rest.takeWhile isTokenChar))
    let wellFormed := match rest.dropWhile isTokenChar with
      | [] => true
      | ';' :: ps => areParameters (ps.length + 1) ps
      | _ => false
    lower (cs.takeWhile isTokenChar) == "application".toList && wellFormed &&
      (stem == "json".toList || suffix == some "json".toList)
  | _ => false

end NodeGroups.Http.Media
