import NodeGroups.Text.Blank
import NodeGroups.Text.Natural

/-! Durations of whole milliseconds. -/
namespace NodeGroups

structure Duration where
  millis : Nat
  deriving DecidableEq, Repr

namespace Duration

def ofSeconds (n : Nat) : Duration := ⟨1000 * n⟩

def seconds (d : Duration) : Nat := d.millis / 1000

/-- What is left above the whole seconds. -/
def nanos (d : Duration) : Nat := d.millis % 1000 * 1000000

def isZero (d : Duration) : Bool := d.millis == 0

/-- The text before a suffix, if the text ends in it. -/
def before? (suffix cs : List Char) : Option (List Char) :=
  if suffix <:+ cs then some (cs.take (cs.length - suffix.length)) else none

/-- A number of milliseconds (`ms`), seconds (`s` or no suffix) or minutes (`m`). The seconds of the minutes must
stay below the bound of natural numbers. -/
def ofChars? (cs : List Char) : Option Duration :=
  match before? ['m', 's'] cs, before? ['s'] cs, before? ['m'] cs with
  | some n, _, _ => (Text.natural? n).map fun n => ⟨n⟩
  | none, some n, _ => (Text.natural? n).map ofSeconds
  | none, none, some n =>
    (Text.natural? n).bind fun n => if n * 60 < Text.naturalBound then some (ofSeconds (n * 60)) else none
  | none, none, none => (Text.natural? cs).map ofSeconds

/-- Blanks around the text do not count. -/
def parse? (s : String) : Option Duration := ofChars? (Text.trimmed s.toList)

/-- Three digits after the point, less the zeros at their end. -/
def fraction (millis : Nat) : List Char :=
  let ds := [millis / 100, millis / 10 % 10, millis % 10].map Nat.digitChar
  (ds.reverse.dropWhile (· == '0')).reverse

/-- In seconds from one second on, else in milliseconds. -/
def render (d : Duration) : String :=
  if d.millis = 0 then "0ns"
  else if d.millis < 1000 then toString d.millis ++ "ms"
  else
    match fraction (d.millis % 1000) with
    | [] => toString d.seconds ++ "s"
    | ds => toString d.seconds ++ "." ++ String.ofList ds ++ "s"

end Duration
end NodeGroups
