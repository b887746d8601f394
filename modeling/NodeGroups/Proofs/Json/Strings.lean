import Mathlib.Data.List.Basic
import NodeGroups.Json.Token
import NodeGroups.Json.Value

/-!
# Strings

What is written for a text between quotes is read as that text, whatever characters it has. Main statement:
`readString_quoted`.
-/

namespace NodeGroups.Json

/-- The bytes of characters. -/
def bytes (cs : List Char) : List UInt8 := cs.flatMap String.utf8EncodeChar

theorem bytes_append (cs ds : List Char) : bytes (cs ++ ds) = bytes cs ++ bytes ds := List.flatMap_append

theorem bytes_cons (c : Char) (cs : List Char) : bytes (c :: cs) = String.utf8EncodeChar c ++ bytes cs := List.flatMap_cons

theorem encode_ofList (cs : List Char) : Text.Utf8.encode (String.ofList cs) = bytes cs := by
  simp [Text.Utf8.encode, String.toByteArray_ofList, List.utf8Encode, bytes]

theorem encode_eq (s : String) : Text.Utf8.encode s = bytes s.toList := by
  rw [← encode_ofList, String.ofList_toList]

/-- A character is one byte below 0x80, or several bytes from there on. -/
theorem utf8EncodeChar_cases (c : Char) :
    (c.toNat < 0x80 ∧ String.utf8EncodeChar c = [UInt8.ofNat c.toNat]) ∨
      0x80 ≤ c.toNat ∧ ∀ b ∈ String.utf8EncodeChar c, 0x80 ≤ b := by
  have hle : ∀ n : Nat, 0x80 ≤ n → n < 256 → (0x80 : UInt8) ≤ UInt8.ofNat n := by
    intro n h h'
    rw [UInt8.le_iff_toNat_le, UInt8.toNat_ofNat_of_lt' h']
    exact h
  unfold String.utf8EncodeChar
  simp only [Char.toNat]
  split
  · exact .inl ⟨by omega, rfl⟩
  · refine .inr ⟨by omega, ?_⟩
    split
    · simp only [List.forall_mem_cons]
      exact ⟨hle _ (by omega) (by omega), hle _ (by omega) (by omega), by simp⟩
    · split
      · simp only [List.forall_mem_cons]
        exact ⟨hle _ (by omega) (by omega), hle _ (by omega) (by omega), hle _ (by omega) (by omega), by simp⟩
      · simp only [List.forall_mem_cons]
        exact ⟨hle _ (by omega) (by omega), hle _ (by omega) (by omega), hle _ (by omega) (by omega),
          hle _ (by omega) (by omega), by simp⟩

namespace Token

/-- Bytes that are no quote, no backslash and no control character stand for themselves. -/
theorem readString_plain {bs : List UInt8} (h : ∀ b ∈ bs, 0x20 ≤ b ∧ b ≠ 0x22 ∧ b ≠ 0x5C) (acc rest : List UInt8) :
    readString ⟨acc, none, true⟩ (bs ++ rest) = readString ⟨bs.reverse ++ acc, none, true⟩ rest := by
  induction bs generalizing acc with
  | nil => rfl
  | cons b bs ih =>
      obtain ⟨⟨hb, hq, he⟩, h⟩ := List.forall_mem_cons.mp h
      rw [List.cons_append, readString]
      · simp [he, UInt8.not_lt.mpr hb, Content.push, Content.settle, ih h]
      · exact fun h => hq h
      · exact fun _ _ _ _ _ h => absurd h he
      · exact fun _ _ h => absurd h he

/-- Bytes of a character that is not escaped. -/
theorem plain_of_not_escaped {c : Char} (hq : c ≠ '"') (he : c ≠ '\\') (hc : ¬ c.toNat < 0x20) :
    ∀ b ∈ String.utf8EncodeChar c, 0x20 ≤ b ∧ b ≠ 0x22 ∧ b ≠ 0x5C := by
  rcases utf8EncodeChar_cases c with ⟨hlt, hb⟩ | ⟨-, hb⟩
  · have hn : ∀ d : Char, d.toNat < 0x80 → (UInt8.ofNat d.toNat).toNat = d.toNat := fun d hd =>
      UInt8.toNat_ofNat_of_lt' (Nat.lt_trans hd (by decide))
    have hne : ∀ d : Char, d.toNat < 0x80 → c ≠ d → UInt8.ofNat c.toNat ≠ UInt8.ofNat d.toNat := by
      intro d hd hcd h
      have hnd := congrArg UInt8.toNat h
      rw [hn c hlt, hn d hd] at hnd
      exact hcd (Char.toNat_inj.mp hnd)
    rw [hb, List.forall_mem_singleton]
    refine ⟨?_, hne '"' (by decide) hq, hne '\\' (by decide) he⟩
    rw [UInt8.le_iff_toNat_le, hn c hlt]
    exact Nat.le_of_not_lt hc
  · intro b hm
    have hge := hb b hm
    refine ⟨UInt8.le_trans (by decide) hge, ?_, ?_⟩ <;>
    · rintro rfl
      exact absurd hge (by decide)

theorem readString_short {b e : UInt8} (he : e ≠ 0x75) (hb : shortEscape? e = some b) (acc rest : List UInt8) :
    readString ⟨acc, none, true⟩ (0x5C :: e :: rest) = readString ⟨b :: acc, none, true⟩ rest := by
  rw [readString, hb]
  · rfl
  · exact fun _ _ _ _ _ h => absurd h he

/-- A control character is written by the number of its code point. -/
theorem readString_control {c : Char} (hc : c.toNat < 0x20) (acc rest : List UInt8) :
    readString ⟨acc, none, true⟩
        (bytes (['\\', 'u', '0', '0'] ++ [c.toNat / 16, c.toNat % 16].map Text.Hex.digit) ++ rest) =
      readString ⟨(String.utf8EncodeChar c).reverse ++ acc, none, true⟩ rest := by
  have hlen : ∀ n < 0x20, (bytes ([n / 16, n % 16].map Text.Hex.digit)).length = 2 := by decide
  have hunit : ∀ n < 0x20, codeUnit? (0x30 :: 0x30 :: bytes ([n / 16, n % 16].map Text.Hex.digit)) = some n := by decide
  obtain ⟨a, b, hab⟩ := List.length_eq_two.mp (hlen _ hc)
  have hn := hunit _ hc
  have hl : bytes ['\\', 'u', '0', '0'] = [0x5C, 0x75, 0x30, 0x30] := by decide
  rw [hab] at hn
  rw [bytes_append, hab, hl]
  simp only [List.cons_append, List.nil_append]
  rw [readString, hn]
  simp only [Content.pushUnit, Content.settle, Content.pushChar]
  rw [if_neg (by omega), if_neg (by omega)]
  simp [encode_eq, bytes]

theorem readString_escaped (c : Char) (acc rest : List UInt8) :
    readString ⟨acc, none, true⟩ (bytes (Value.escaped c) ++ rest) =
      readString ⟨(String.utf8EncodeChar c).reverse ++ acc, none, true⟩ rest := by
  unfold Value.escaped
  split
  · exact readString_short (b := 0x22) (by decide) (by decide) acc rest
  · exact readString_short (b := 0x5C) (by decide) (by decide) acc rest
  · exact readString_short (b := 0x08) (by decide) (by decide) acc rest
  · exact readString_short (b := 0x0C) (by decide) (by decide) acc rest
  · exact readString_short (b := 0x0A) (by decide) (by decide) acc rest
  · exact readString_short (b := 0x0D) (by decide) (by decide) acc rest
  · exact readString_short (b := 0x09) (by decide) (by decide) acc rest
  · next hq he _ _ _ _ _ =>
    split
    · next hc => exact readString_control hc acc rest
    · next hc =>
      rw [bytes, List.flatMap_singleton]
      exact readString_plain (plain_of_not_escaped hq he hc) acc rest

theorem readString_quoted (s : String) (rest : List UInt8) :
    readString {} (bytes (s.toList.flatMap Value.escaped) ++ 0x22 :: rest) = some (some s, rest) := by
  have hgo : ∀ (cs : List Char) (acc : List UInt8),
      readString ⟨acc, none, true⟩ (bytes (cs.flatMap Value.escaped) ++ 0x22 :: rest) =
        readString ⟨(bytes cs).reverse ++ acc, none, true⟩ (0x22 :: rest) := by
    intro cs
    induction cs with
    | nil => exact fun _ => rfl
    | cons c cs ih =>
        intro acc
        rw [List.flatMap_cons, bytes_append, List.append_assoc, readString_escaped, ih, bytes_cons, List.reverse_append,
          List.append_assoc]
  rw [hgo, readString]
  simp [Content.text?, Content.settle, ← encode_eq, Text.Utf8.decode?_encode]

end Token
end NodeGroups.Json
