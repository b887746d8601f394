import NodeGroups.Proofs.Json.Strings

/-!
# Tokens of a value

The text written for a value without blanks is read as the words and marks of the value. Main statement: `ofBytes_chars`.
-/

namespace NodeGroups.Json

/-! ## Numbers -/

/-- A natural number as it is written. -/
def numeral (n : Nat) : Numeral where
  negative := false
  integer := (Nat.toDigits 10 n).map fun c => c.toNat - 0x30
  fraction := []
  exponent := none

theorem toNat_of_isDigit {c : Char} (h : c.isDigit = true) : 0x30 ≤ c.toNat ∧ c.toNat ≤ 0x39 := by
  simpa [Char.isDigit, UInt32.le_iff_toNat_le] using h

/-- A number above zero does not start with a zero. -/
theorem head?_toDigits_ne {n : Nat} (hn : 0 < n) : (Nat.toDigits 10 n).head? ≠ some '0' := by
  induction n using Nat.strongRecOn with
  | ind n ih =>
      rcases Nat.lt_or_ge n 10 with hlt | hge
      · have hd : ∀ n < 10, 0 < n → (Nat.toDigits 10 n).head? ≠ some '0' := by decide
        exact hd n hlt hn
      · rw [Nat.toDigits_of_base_le (by decide) hge, List.head?_append_of_ne_nil _ Nat.toDigits_ne_nil]
        exact ih _ (Nat.div_lt_self hn (by decide)) (Nat.div_pos hge (by decide))

/-- A zero is the only digit, or not the first. -/
theorem integer_numeral (n : Nat) :
    ((numeral n).integer.isEmpty || (numeral n).integer.length > 1 && (numeral n).integer.head? == some 0) = false := by
  rcases Nat.eq_zero_or_pos n with rfl | hn
  · decide
  · have hne : (numeral n).integer.head? ≠ some 0 := by
      intro h
      rw [numeral, List.head?_map, Option.map_eq_some_iff] at h
      obtain ⟨c, hc, h0⟩ := h
      obtain ⟨hge, -⟩ := toNat_of_isDigit (Nat.isDigit_of_mem_toDigits (by decide) (by decide) (List.mem_of_head? hc))
      have h48 : c.toNat = '0'.toNat := Nat.le_antisymm (Nat.sub_eq_zero_iff_le.mp h0) hge
      exact head?_toDigits_ne hn (hc.trans (congrArg some (Char.toNat_inj.mp h48)))
    have hnil : (numeral n).integer ≠ [] := by simp [numeral]
    simp [hne, hnil]

namespace Token

/-- No number goes on here. -/
def Stops (bs : List UInt8) : Prop := ∀ b ∈ bs.head?, isDigit b = false ∧ b ≠ 0x2E ∧ b ≠ 0x65 ∧ b ≠ 0x45

theorem bytes_of_isDigit {ds : List Char} (h : ∀ c ∈ ds, c.isDigit = true) :
    (∀ b ∈ bytes ds, isDigit b = true) ∧ (bytes ds).map (fun b => b.toNat - 0x30) = ds.map fun c => c.toNat - 0x30 := by
  induction ds with
  | nil => exact ⟨nofun, rfl⟩
  | cons c ds ih =>
      obtain ⟨hc, hds⟩ := List.forall_mem_cons.mp h
      obtain ⟨hge, hle⟩ := toNat_of_isDigit hc
      obtain ⟨hd, hm⟩ := ih hds
      have hn : (UInt8.ofNat c.toNat).toNat = c.toNat := UInt8.toNat_ofNat_of_lt' (Nat.lt_of_le_of_lt hle (by decide))
      have hb : String.utf8EncodeChar c = [UInt8.ofNat c.toNat] := by
        rcases utf8EncodeChar_cases c with ⟨-, hb⟩ | ⟨hlt, -⟩
        · exact hb
        · omega
      rw [bytes_cons, hb, List.singleton_append, List.map_cons, List.map_cons, hm, hn]
      refine ⟨List.forall_mem_cons.mpr ⟨?_, hd⟩, rfl⟩
      simp [isDigit, UInt8.le_iff_toNat_le, hn, hge, hle]

theorem digits_append {ds rest : List UInt8} (h : ∀ b ∈ ds, isDigit b = true) (hr : Stops rest) :
    digits (ds ++ rest) = ds.map (fun b => b.toNat - 0x30) ∧ (ds ++ rest).dropWhile isDigit = rest := by
  have hrest : rest.takeWhile isDigit = [] ∧ rest.dropWhile isDigit = rest := by
    cases rest with
    | nil => exact ⟨rfl, rfl⟩
    | cons b rest =>
        have hb := (hr b rfl).1
        simp [hb]
  rw [digits, List.takeWhile_append_of_pos h, List.dropWhile_append_of_pos h, hrest.1, hrest.2, List.append_nil]
  exact ⟨rfl, rfl⟩

theorem readNumber_toDigits (n : Nat) {rest : List UInt8} (hr : Stops rest) :
    readNumber false (bytes (Nat.toDigits 10 n) ++ rest) = some (numeral n, rest) := by
  obtain ⟨hb, hm⟩ := bytes_of_isDigit fun c hc => Nat.isDigit_of_mem_toDigits (b := 10) (n := n) (by decide) (by decide) hc
  obtain ⟨hd, hw⟩ := digits_append hb hr
  have hi : digits (bytes (Nat.toDigits 10 n) ++ rest) = (numeral n).integer := hd.trans hm
  have hf : readFraction rest = some ([], rest) := by
    unfold readFraction
    split
    · next b => exact absurd rfl (hr _ rfl).2.1
    · rfl
  have ht : readTail rest = some (none, rest) := by
    unfold readTail
    split
    · next b rest =>
      obtain ⟨-, -, he, hE⟩ := hr b rfl
      simp [he, hE]
    · rfl
  rw [readNumber, hi, hw]
  simp only [integer_numeral, Bool.false_eq_true, if_false, hf, Option.bind_eq_bind, Option.bind_some, ht]
  rfl

/-! ## Texts -/

/-- These tokens stand in front, one right behind the other, and what follows them. -/
inductive Reads : List UInt8 → List Token → List UInt8 → Prop
  | nil (bs) : Reads bs [] bs
  | cons {b t bs bs' ts rest} : isBlank b = false → next (b :: bs) = (t, bs') → bs' <:+ bs → Reads bs' ts rest →
      Reads (b :: bs) (t :: ts) rest

namespace Reads

variable {bs bs' rest : List UInt8} {t : Token} {ts ts' : List Token}

theorem append (h : Reads bs ts bs') (h' : Reads bs' ts' rest) : Reads bs (ts ++ ts') rest := by
  induction h with
  | nil => exact h'
  | cons hb hn hl _ ih => exact .cons hb hn hl (ih h')

theorem readAll (h : Reads bs ts []) (read : List Token) {n : Nat} (hn : bs.length < n) :
    Token.readAll n read bs = read.reverse ++ ts := by
  -- each token takes a byte at least, so the bytes run out first
  obtain ⟨m, rfl⟩ : ∃ m, n = m + 1 := ⟨n - 1, by omega⟩
  generalize hr : [] = rest at h
  induction h generalizing read m with
  | nil => simp [Token.readAll, ← hr]
  | cons hb hnext hl _ ih =>
      rw [List.length_cons] at hn
      have hle := hl.length_le
      obtain ⟨k, rfl⟩ : ∃ k, m = k + 1 := ⟨m - 1, by omega⟩
      rw [Token.readAll, List.dropWhile_cons_of_neg (by simp [hb])]
      simp only [hnext]
      rw [ih _ k (by omega) hr]
      simp

theorem ofBytes (h : Reads bs ts []) : Token.ofBytes bs = ts := h.readAll [] (Nat.lt_succ_self _)

end Reads

/-- The character is that mark, and no number goes on at it. -/
structure IsMark (c : Char) (t : Token) : Prop where
  reads : ∀ rest, Reads (bytes [c] ++ rest) [t] rest
  stops : ∀ rest, Stops (bytes [c] ++ rest)

theorem isMark {c : Char} (b : UInt8) {t : Token} (hc : bytes [c] = [b]) (hn : ∀ bs, next (b :: bs) = (t, bs))
    (hb : isBlank b = false ∧ isDigit b = false ∧ b ≠ 0x2E ∧ b ≠ 0x65 ∧ b ≠ 0x45) : IsMark c t where
  reads rest := hc ▸ .cons hb.1 (hn rest) List.suffix_rfl (.nil _)
  stops rest a ha := by
    rw [hc] at ha
    cases ha
    exact hb.2

theorem isMark_openList : IsMark '[' .openList := isMark 0x5B (by decide) (fun _ => rfl) (by decide)

theorem isMark_closeList : IsMark ']' .closeList := isMark 0x5D (by decide) (fun _ => rfl) (by decide)

theorem isMark_openRecord : IsMark '\x7b' .openRecord := isMark 0x7B (by decide) (fun _ => rfl) (by decide)

theorem isMark_closeRecord : IsMark '\x7d' .closeRecord := isMark 0x7D (by decide) (fun _ => rfl) (by decide)

theorem isMark_comma : IsMark ',' .comma := isMark 0x2C (by decide) (fun _ => rfl) (by decide)

theorem isMark_colon : IsMark ':' .colon := isMark 0x3A (by decide) (fun _ => rfl) (by decide)

theorem reads_quoted (s : String) (rest : List UInt8) : Reads (bytes (Value.quoted s) ++ rest) [.str (some s)] rest := by
  have hq : bytes (Value.quoted s) ++ rest = 0x22 :: (bytes (s.toList.flatMap Value.escaped) ++ 0x22 :: rest) := by
    have h22 : String.utf8EncodeChar '"' = [0x22] := by decide
    simp [Value.quoted, bytes, h22]
  rw [hq]
  refine .cons (by decide) ?_ ⟨_ ++ [0x22], List.append_assoc ..⟩ (.nil _)
  rw [next, readString_quoted]
  rfl

theorem ne_of_isDigit {a b : UInt8} (hb : isDigit b = true) (ha : isDigit a = false) : b ≠ a := by
  rintro rfl
  rw [ha] at hb
  cases hb

theorem isBlank_of_isDigit {b : UInt8} (h : isDigit b = true) : isBlank b = false := by
  simp [isBlank, ne_of_isDigit h (a := 0x20) (by decide), ne_of_isDigit h (a := 0x09) (by decide),
    ne_of_isDigit h (a := 0x0A) (by decide), ne_of_isDigit h (a := 0x0D) (by decide)]

theorem next_of_isDigit {b : UInt8} (h : isDigit b = true) (bs : List UInt8) :
    next (b :: bs) = (readNumber false (b :: bs)).elim (bad, []) fun (n, rest) => (num n, rest) := by
  rw [next]
  all_goals
    intro rest he
    exact ne_of_isDigit h (by decide) (List.cons.inj he).1

theorem reads_toDigits (n : Nat) {rest : List UInt8} (h : Stops rest) :
    Reads (bytes (Nat.toDigits 10 n) ++ rest) [.num (numeral n)] rest := by
  have hn := readNumber_toDigits n h
  obtain ⟨hd, hm⟩ := bytes_of_isDigit fun c hc => Nat.isDigit_of_mem_toDigits (b := 10) (n := n) (by decide) (by decide) hc
  cases hb : bytes (Nat.toDigits 10 n) with
  | nil =>
      rw [hb] at hm
      exact absurd (List.map_eq_nil_iff.mp hm.symm) Nat.toDigits_ne_nil
  | cons b bs =>
      rw [hb] at hn hd
      have hb := hd b List.mem_cons_self
      refine .cons (isBlank_of_isDigit hb) ?_ ⟨bs, rfl⟩ (.nil _)
      rw [List.cons_append] at hn
      refine (next_of_isDigit hb _).trans ?_
      rw [List.append_eq, hn]
      rfl

end Token

/-! ## Values -/

namespace Value

mutual
/-- The words and marks of a value. -/
def tokens : Value → List Token
  | null => [.null]
  | bool b => [.bool b]
  | num n => [.num (numeral n)]
  | str s => [.str (some s)]
  | list items => .openList :: itemTokens items ++ [.closeList]
  | record members => .openRecord :: memberTokens members ++ [.closeRecord]

def itemTokens : List Value → List Token
  | [] => []
  | [v] => tokens v
  | v :: vs => tokens v ++ .comma :: itemTokens vs

def memberTokens : List (String × Value) → List Token
  | [] => []
  | [(k, v)] => .str (some k) :: .colon :: tokens v
  | (k, v) :: ms => .str (some k) :: .colon :: tokens v ++ .comma :: memberTokens ms
end

open Token (Reads Stops)

theorem chars_list (items : List Value) : chars (list items) = ['['] ++ itemChars items ++ [']'] := by simp [chars]

theorem chars_record (ms : List (String × Value)) : chars (record ms) = ['\x7b'] ++ memberChars ms ++ ['\x7d'] := by
  simp [chars]

theorem itemChars_cons (v v' : Value) (vs : List Value) :
    itemChars (v :: v' :: vs) = chars v ++ [','] ++ itemChars (v' :: vs) := by simp [itemChars]

theorem memberChars_singleton (k : String) (v : Value) : memberChars [(k, v)] = quoted k ++ [':'] ++ chars v := by
  simp [memberChars]

theorem memberChars_cons (k : String) (v : Value) (m : String × Value) (ms : List (String × Value)) :
    memberChars ((k, v) :: m :: ms) = quoted k ++ [':'] ++ chars v ++ [','] ++ memberChars (m :: ms) := by
  simp [memberChars]

theorem reads_member (k : String) {v : Value} {rest : List UInt8} (hv : Reads (bytes v.chars ++ rest) v.tokens rest) :
    Reads (bytes (quoted k ++ [':'] ++ chars v) ++ rest) (.str (some k) :: .colon :: v.tokens) rest := by
  rw [bytes_append, bytes_append, List.append_assoc, List.append_assoc]
  exact (Token.reads_quoted k _).append ((Token.isMark_colon.reads _).append hv)

mutual
theorem reads_chars : (v : Value) → {rest : List UInt8} → Stops rest → Reads (bytes v.chars ++ rest) v.tokens rest
  | null, _, _ => .cons (by decide) rfl ⟨[0x75, 0x6C, 0x6C], rfl⟩ (.nil _)
  | bool true, _, _ => .cons (by decide) rfl ⟨[0x72, 0x75, 0x65], rfl⟩ (.nil _)
  | bool false, _, _ => .cons (by decide) rfl ⟨[0x61, 0x6C, 0x73, 0x65], rfl⟩ (.nil _)
  | num n, _, h => Token.reads_toDigits n h
  | str s, rest, _ => Token.reads_quoted s rest
  | list items, rest, _ => by
      rw [chars_list, bytes_append, bytes_append, List.append_assoc, List.append_assoc]
      exact (Token.isMark_openList.reads _).append <|
        (reads_itemChars items (Token.isMark_closeList.stops _)).append (Token.isMark_closeList.reads rest)
  | record members, rest, _ => by
      rw [chars_record, bytes_append, bytes_append, List.append_assoc, List.append_assoc]
      exact (Token.isMark_openRecord.reads _).append <|
        (reads_memberChars members (Token.isMark_closeRecord.stops _)).append (Token.isMark_closeRecord.reads rest)

theorem reads_itemChars : (vs : List Value) → {rest : List UInt8} → Stops rest →
    Reads (bytes (itemChars vs) ++ rest) (itemTokens vs) rest
  | [], _, _ => .nil _
  | [v], _, h => reads_chars v h
  | v :: v' :: vs, rest, h => by
      rw [itemChars_cons, bytes_append, bytes_append, List.append_assoc, List.append_assoc]
      exact (reads_chars v (Token.isMark_comma.stops _)).append <|
        (Token.isMark_comma.reads _).append (reads_itemChars (v' :: vs) h)

theorem reads_memberChars : (ms : List (String × Value)) → {rest : List UInt8} → Stops rest →
    Reads (bytes (memberChars ms) ++ rest) (memberTokens ms) rest
  | [], _, _ => .nil _
  | [(k, v)], rest, h => by
      rw [memberChars_singleton]
      exact reads_member k (reads_chars v h)
  | (k, v) :: m :: ms, rest, h => by
      rw [memberChars_cons, bytes_append, bytes_append, List.append_assoc, List.append_assoc]
      exact (reads_member k (reads_chars v (Token.isMark_comma.stops _))).append <|
        (Token.isMark_comma.reads _).append (reads_memberChars (m :: ms) h)
end

theorem ofBytes_chars (v : Value) : Token.ofBytes (bytes v.chars) = v.tokens :=
  Reads.ofBytes (List.append_nil (bytes v.chars) ▸ reads_chars v nofun)

end Value
end NodeGroups.Json
