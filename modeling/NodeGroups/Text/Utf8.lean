/-! UTF-8: strict reading, and reading that repairs what is not UTF-8. -/
namespace NodeGroups.Text.Utf8

def encode (s : String) : List UInt8 := s.toByteArray.data.toList

/-- The text that the bytes encode, `none` if they are not UTF-8. -/
def decode? (bs : List UInt8) : Option String := String.fromUTF8? ⟨bs.toArray⟩

theorem decode?_encode (s : String) : decode? (encode s) = some s := by
  have h : (⟨(encode s).toArray⟩ : ByteArray) = s.toByteArray := by simp [encode]
  rw [decode?, h, String.fromUTF8?, dif_pos s.isValidUTF8]
  rfl

/-! ## Repair -/

/-- A character of which some bytes are read: the bits so far, how many bytes are missing, and the bounds of the
next one. -/
structure Pending where
  value : Nat
  missing : Nat
  lo : Nat := 0x80
  hi : Nat := 0xBF

/-- What a byte that starts a character leads to: a whole character, or a pending one. -/
def start (b : Nat) : Option (Char ⊕ Pending) :=
  if b < 0x80 then some (.inl (Char.ofNat b))
  else if b < 0xC2 then none
  else if b < 0xE0 then some (.inr ⟨b - 0xC0, 1, 0x80, 0xBF⟩)
  else if b < 0xF0 then
    some (.inr ⟨b - 0xE0, 2, if b = 0xE0 then 0xA0 else 0x80, if b = 0xED then 0x9F else 0xBF⟩)
  else if b < 0xF5 then
    some (.inr ⟨b - 0xF0, 3, if b = 0xF0 then 0x90 else 0x80, if b = 0xF4 then 0x8F else 0xBF⟩)
  else none

def replacement : Char := '\uFFFD'

def begin? (b : UInt8) : List Char × Option Pending :=
  match start b.toNat with
  | some (.inl c) => ([c], none)
  | some (.inr p) => ([], some p)
  | none => ([replacement], none)

/-- The characters that a byte completes, and what is pending after it. A byte that does not continue what is
pending replaces it and starts anew. -/
def feed (p : Option Pending) (b : UInt8) : List Char × Option Pending :=
  match p with
  | none => begin? b
  | some p =>
    if p.lo ≤ b.toNat ∧ b.toNat ≤ p.hi then
      let value := p.value * 64 + (b.toNat - 0x80)
      if p.missing ≤ 1 then ([Char.ofNat value], none) else ([], some { value, missing := p.missing - 1 })
    else
      let (cs, q) := begin? b
      (replacement :: cs, q)

def repairFrom (p : Option Pending) : List UInt8 → List Char
  | [] => if p.isSome then [replacement] else []
  | b :: bs =>
    let (cs, q) := feed p b
    cs ++ repairFrom q bs

/-- Every longest part of the bytes that starts a character without ending it becomes one replacement character. -/
def repair (bs : List UInt8) : String := String.ofList (repairFrom none bs)

end NodeGroups.Text.Utf8
