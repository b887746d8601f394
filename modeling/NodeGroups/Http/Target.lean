/-! The target of a request: a path with a query, or a whole address, `http://host/path?query`. -/
namespace NodeGroups.Http.Target

/-- May stand in the name of a scheme. -/
def isSchemeChar (c : Char) : Bool := c.isAlphanum || "+-.~".toList.contains c

/-- Ends the path, or the authority of an address before it. -/
def isBreak (c : Char) : Bool := c == '?' || c == '#'

/-- What follows the scheme and the authority of an address. Another target is left as it is. -/
def afterAuthority (target : List Char) : List Char :=
  match target.dropWhile isSchemeChar with
  | ':' :: '/' :: '/' :: rest => rest.dropWhile fun c => c != '/' && !isBreak c
  | _ => target

/-- The path, without the query and the fragment after it. -/
def path (target : List Char) : List Char := (afterAuthority target).takeWhile (!isBreak ·)

/-- A target that begins with a slash is no address. -/
theorem afterAuthority_slash (cs : List Char) : afterAuthority ('/' :: cs) = '/' :: cs := rfl

end NodeGroups.Http.Target
