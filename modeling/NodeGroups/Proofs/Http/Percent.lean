import NodeGroups.Http.Percent
import NodeGroups.Proofs.Json.Strings

/-!
# Percent encoding

What is encoded is decoded to the same text, whatever characters it has, and can stand between the separators of an address:
it has none of them itself. Main statements: `decode?_encode` and `isSafe_of_mem_encode`.
-/

namespace NodeGroups.Http.Percent
open Json (bytes_append utf8EncodeChar_cases)

variable {b : UInt8} {rest : List UInt8} {s : String}

/-- What is written for a byte. -/
def escaped (b : UInt8) : List Char := if isPlain b then [Char.ofNat b.toNat] else '%' :: Text.Hex.ofByte b

theorem encode_eq (s : String) : encode s = String.ofList ((Text.Utf8.encode s).flatMap escaped) := rfl

/-! ## One byte -/

theorem digit?_digit {n : Nat} (h : n < 16) :
    ∃ d, String.utf8EncodeChar (Text.Hex.digit n).toUpper = [d] ∧ Text.Hex.digit? d = some n := by
  have hd : ∀ n < 16, (String.utf8EncodeChar (Text.Hex.digit n).toUpper).map Text.Hex.digit? = [some n] := by decide
  exact List.map_eq_singleton_iff.mp (hd n h)

theorem bytes_ofByte (b : UInt8) (rest : List UInt8) :
    bytes (Json.bytes ('%' :: Text.Hex.ofByte b) ++ rest) = b :: bytes rest := by
  have hb : b.toNat < 256 := b.toNat_lt
  obtain ⟨x, hx, hx'⟩ := digit?_digit (n := b.toNat / 16) (by omega)
  obtain ⟨y, hy, hy'⟩ := digit?_digit (n := b.toNat % 16) (by omega)
  have hp : Json.bytes ('%' :: Text.Hex.ofByte b) = [0x25, x, y] := by
    simp only [Json.bytes, Text.Hex.ofByte, List.map_cons, List.map_nil, List.flatMap_cons, List.flatMap_nil, hx, hy]
    rfl
  have hv : (16 * (b.toNat / 16) + b.toNat % 16).toUInt8 = b := by
    rw [Nat.div_add_mod, Nat.toUInt8, UInt8.ofNat_toNat]
  rw [hp]
  simp only [List.cons_append, List.nil_append]
  rw [bytes, hx', hy']
  simp only [hv]

theorem bytes_cons_of_ne (h : b ≠ 0x25) (rest : List UInt8) : bytes (b :: rest) = b :: bytes rest := by
  rw [bytes]
  exact fun _ _ _ hb => absurd hb h

theorem lt_of_isPlain (h : isPlain b = true) : b.toNat < 0x80 := by
  simp only [isPlain, Bool.or_eq_true, Bool.and_eq_true, decide_eq_true_eq, beq_iff_eq, UInt8.le_iff_toNat_le] at h
  rcases h with ((⟨-, h⟩ | ⟨-, h⟩) | ⟨-, h⟩) | rfl
  · exact Nat.lt_of_le_of_lt h (by decide)
  · exact Nat.lt_of_le_of_lt h (by decide)
  · exact Nat.lt_of_le_of_lt h (by decide)
  · decide

theorem bytes_escaped (b : UInt8) (rest : List UInt8) : bytes (Json.bytes (escaped b) ++ rest) = b :: bytes rest := by
  unfold escaped
  split
  · next hp =>
    have hne : b ≠ 0x25 := by
      rintro rfl
      cases hp
    have hb : ∀ n < 0x80, Json.bytes [Char.ofNat n] = [UInt8.ofNat n] := by decide
    rw [hb _ (lt_of_isPlain hp), UInt8.ofNat_toNat]
    exact bytes_cons_of_ne hne rest
  · exact bytes_ofByte b rest

/-! ## Texts -/

theorem bytes_flatMap_escaped (bs : List UInt8) : bytes (Json.bytes (bs.flatMap escaped)) = bs := by
  induction bs with
  | nil => rfl
  | cons b bs ih => rw [List.flatMap_cons, bytes_append, bytes_escaped, ih]

theorem decode?_encode (s : String) : decode? (encode s) = some s := by
  rw [decode?, encode_eq, Json.encode_ofList, bytes_flatMap_escaped, Text.Utf8.decode?_encode]

theorem encode_eq_empty_iff : encode s = "" ↔ s = "" := by
  constructor
  · intro h
    have hs := decode?_encode s
    rw [h] at hs
    exact (Option.some.inj hs).symm
  · rintro rfl
    rfl

/-! ## Separators -/

/-- A letter, a digit, a hyphen or a percent sign. -/
def isSafe (c : Char) : Bool := c.isAlphanum || c == '-' || c == '%'

theorem isSafe_of_mem_escaped {c : Char} (h : c ∈ escaped b) : isSafe c = true := by
  unfold escaped at h
  split at h
  · next hp =>
    have hs : ∀ n < 0x80, isPlain (UInt8.ofNat n) = true → isSafe (Char.ofNat n) = true := by decide
    rw [List.mem_singleton.mp h]
    exact hs _ (lt_of_isPlain hp) (by rwa [UInt8.ofNat_toNat])
  · have hb : b.toNat < 256 := b.toNat_lt
    have hd : ∀ n < 16, isSafe (Text.Hex.digit n).toUpper = true := by decide
    simp only [Text.Hex.ofByte, List.map_cons, List.map_nil, List.mem_cons, List.not_mem_nil, or_false] at h
    rcases h with rfl | rfl | rfl
    · rfl
    · exact hd _ (by omega)
    · exact hd _ (by omega)

theorem isSafe_of_mem_encode {c : Char} (h : c ∈ (encode s).toList) : isSafe c = true := by
  rw [encode_eq, String.toList_ofList] at h
  obtain ⟨b, -, hb⟩ := List.mem_flatMap.mp h
  exact isSafe_of_mem_escaped hb

end NodeGroups.Http.Percent
