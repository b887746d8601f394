import NodeGroups.Text.Hex
import NodeGroups.Text.Utf8

/-! Percent encoding, in which `%` and two hexadecimal digits stand for a byte. -/
namespace NodeGroups.Http.Percent

/-- The bytes that are meant. A `%` that no two digits follow stands for itself. -/
def bytes : List UInt8 → List UInt8
  | [] => []
  | 0x25 :: a :: b :: rest =>
    match Text.Hex.digit? a, Text.Hex.digit? b with
    | some x, some y => (16 * x + y).toUInt8 :: bytes rest
    | _, _ => 0x25 :: bytes (a :: b :: rest)
  | b :: rest => b :: bytes rest

/-- The text that is meant, unless it is not UTF-8. -/
def decode? (s : String) : Option String := Text.Utf8.decode? (bytes (Text.Utf8.encode s))

/-- Stands for itself: an ASCII letter or digit, or a hyphen. -/
def isPlain (b : UInt8) : Bool :=
  0x30 ≤ b && b ≤ 0x39 || 0x41 ≤ b && b ≤ 0x5A || 0x61 ≤ b && b ≤ 0x7A || b == 0x2D

def encode (s : String) : String :=
  String.ofList ((Text.Utf8.encode s).flatMap fun b =>
    if isPlain b then [Char.ofNat b.toNat] else '%' :: Text.Hex.ofByte b)

end NodeGroups.Http.Percent
