import NodeGroups.Json.Reading
import NodeGroups.Proofs.Json.Tokens

/-!
# Texts of values

The text written for a value is read as that value, with nothing left behind it. Main statement: `ofBytes_compact`.
-/

namespace NodeGroups.Json

namespace Value

mutual
/-- The value as it is read. -/
def reading : Value → Reading
  | null => .null
  | bool b => .bool b
  | num n => .num (numeral n)
  | str s => .str (some s)
  | list items => .list (itemReadings items) true
  | record members => .record (memberReadings members) true

def itemReadings : List Value → List Reading
  | [] => []
  | v :: vs => reading v :: itemReadings vs

def memberReadings : List (String × Value) → List (Option String × Reading)
  | [] => []
  | (k, v) :: ms => (some k, reading v) :: memberReadings ms
end

end Value

namespace Reading

open Value (tokens itemTokens memberTokens reading itemReadings memberReadings)

/-- Reads on behind a value that is complete. -/
def follow (v : Reading) : List Frame → List Token → Reading × List Token
  | [], ts => (v, ts)
  | f :: frames, ts => run (f.add v :: frames) .next ts

variable {frames : List Frame} {e : Expect} {t : Token} {ts : List Token}

theorem follow_cons (v : Reading) (f : Frame) (frames : List Frame) (ts : List Token) :
    follow v (f :: frames) ts = run (f.add v :: frames) .next ts := rfl

theorem run_complete {frames' : List Frame} {v : Reading} (h : step frames e t = complete v frames') :
    run frames e (t :: ts) = follow v frames' ts := by
  rw [run, h]
  cases frames' <;> rfl

theorem run_go {frames' : List Frame} {e' : Expect} (h : step frames e t = .go frames' e') :
    run frames e (t :: ts) = run frames' e' ts := by
  rw [run, h]

/-- A value may start here. -/
def Starts (frames : List Frame) (e : Expect) : Prop := ∀ t, t ≠ .closeList → step frames e t = startValue frames t

theorem starts_value (frames : List Frame) : Starts frames .value := fun _ _ => by simp [step]

theorem starts_first (items : List Reading) (frames : List Frame) : Starts (.list items :: frames) .first := by
  intro t ht
  cases t <;> first | rfl | exact absurd rfl ht

theorem run_key {members : List (Option String × Reading)} (h : e = .first ∨ e = .key) (k : Option String)
    (ts : List Token) :
    run (.record members :: frames) e (.str k :: .colon :: ts) = run (.member members k :: frames) .value ts := by
  rcases h with rfl | rfl <;> exact (run_go rfl).trans (run_go rfl)

mutual
theorem run_tokens : (v : Value) → {frames : List Frame} → {e : Expect} → Starts frames e → (ts : List Token) →
    run frames e (v.tokens ++ ts) = follow v.reading frames ts
  | .null, _, _, h, _ | .bool _, _, _, h, _ | .num _, _, _, h, _ | .str _, _, _, h, _ => run_complete (h _ nofun)
  | .list [], frames, e, h, ts => by
      rw [tokens, itemTokens]
      exact (run_go (h .openList nofun)).trans (run_complete rfl)
  | .list (v :: vs), frames, e, h, ts => by
      rw [tokens, List.append_assoc]
      exact (run_go (h .openList nofun)).trans (run_itemTokens (v :: vs) nofun [] (starts_first [] frames) ts)
  | .record [], frames, e, h, ts => by
      rw [tokens, memberTokens]
      exact (run_go (h .openRecord nofun)).trans (run_complete rfl)
  | .record (m :: ms), frames, e, h, ts => by
      rw [tokens, List.append_assoc]
      exact (run_go (h .openRecord nofun)).trans (run_memberTokens (m :: ms) nofun [] (.inl rfl) ts)

/-- The items that are left of a list, and its end. -/
theorem run_itemTokens : (vs : List Value) → vs ≠ [] → (items : List Reading) → {frames : List Frame} → {e : Expect} →
    Starts (.list items :: frames) e → (ts : List Token) →
    run (.list items :: frames) e (itemTokens vs ++ .closeList :: ts) =
      follow (.list (items.reverse ++ itemReadings vs) true) frames ts
  | [v], _, items, frames, e, h, ts => by
      rw [itemTokens, run_tokens v h, follow_cons]
      refine (run_complete rfl).trans ?_
      simp [Frame.close, itemReadings]
  | v :: v' :: vs, _, items, frames, e, h, ts => by
      have hvs := run_itemTokens (v' :: vs) nofun (v.reading :: items) (starts_value (.list (v.reading :: items) :: frames)) ts
      rw [itemTokens, List.append_assoc, run_tokens v h, follow_cons]
      · refine (run_go rfl).trans (hvs.trans ?_)
        simp [itemReadings]
      · exact nofun

/-- The members that are left of a record, and its end. -/
theorem run_memberTokens : (ms : List (String × Value)) → ms ≠ [] → (members : List (Option String × Reading)) →
    {frames : List Frame} → {e : Expect} → e = .first ∨ e = .key → (ts : List Token) →
    run (.record members :: frames) e (memberTokens ms ++ .closeRecord :: ts) =
      follow (.record (members.reverse ++ memberReadings ms) true) frames ts
  | [(k, v)], _, members, frames, e, h, ts => by
      simp only [memberTokens, List.cons_append]
      rw [run_key h, run_tokens v (starts_value _), follow_cons]
      refine (run_complete rfl).trans ?_
      simp [Frame.close, memberReadings]
  | (k, v) :: m :: ms, _, members, frames, e, h, ts => by
      have hms := @run_memberTokens (m :: ms) nofun ((some k, v.reading) :: members) frames .key (.inr rfl) ts
      rw [memberTokens]
      · simp only [List.cons_append, List.append_assoc]
        rw [run_key h, run_tokens v (starts_value _), follow_cons]
        refine (run_go rfl).trans (hms.trans ?_)
        simp [memberReadings]
      · exact nofun
end

theorem ofBytes_compact (v : Value) : ofBytes (Text.Utf8.encode v.compact) = (v.reading, true) := by
  have ht := run_tokens v (starts_value []) []
  rw [List.append_nil] at ht
  rw [ofBytes, Value.compact, encode_ofList, Value.ofBytes_chars, ht]
  rfl

end Reading
end NodeGroups.Json
