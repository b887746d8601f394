import NodeGroups.Proofs.Group.Failures

/-!
# Sizes in words

Sizes are words of 64 bits, and a request for more units holds a word of 32 bits. A group adds, subtracts and narrows such
words only where nothing is lost by it, so that all it does can be told in natural numbers. Main statement: `exact_in_words`.
-/

namespace NodeGroups
open Operation
open Fleet (Request)

/-- What the fleet has been asked. -/
def Operation.requests (es : List (Event Unit)) : List Request := es.filterMap (Event.requestTo? ())

namespace Manager

variable {m m' : Manager} {count : Nat} {es : List (Event Unit)} {v : Option (Except Error Unit)}

/-- The requests by which units are added. -/
def growthRequests (m : Manager) (count : Nat) : List Request :=
  [.status [m.application], .addUnits m.application count, .status [m.application]]

theorem ScalesUp.requests (h : ScalesUp m count es m' v) (hc : count ≠ 0) :
    requests es ≠ [] ∧ requests es <+: m.growthRequests count ∧
      (v = some (.ok ()) → requests es = m.growthRequests count) := by
  cases h with
  | zero h0 => exact absurd h0 hc
  | @unseen e | @refused _ e | @lost _ _ e =>
      cases e <;> simp [Operation.requests, Event.requestTo?, growthRequests, unanswered]
  | grown =>
      have hw (ns : List Notice) : Operation.requests (ns.map .warn) = [] := by
        simp [Operation.requests, Event.requestTo?]
      rw [Operation.requests, List.filterMap_append, ← Operation.requests, ← Operation.requests, hw]
      simp [Operation.requests, Event.requestTo?, growthRequests]

end Manager

namespace Group
open Provider (Error)

theorem relay_eq_ok_iff {w : Option (Except Manager.Error Unit)} : relay w = some (.ok ()) ↔ w = some (.ok ()) := by
  rcases w with _ | _ | _ <;> simp [relay, Except.mapError]

variable {g g' : Group} {t lo hi d : UInt64} {node : String} {nodes rest : List String} {es : List (Event Unit)}
  {v : Option (Except Error Unit)}

/-- The sizes of the group are these words. -/
structure InWords (g : Group) (target lo hi : UInt64) : Prop where
  target : g.target = target.toNat
  minSize : g.minSize = lo.toNat
  maxSize : g.maxSize = hi.toNat

/-! ## More units -/

/-- There is something to add, it keeps to the maximum, and one request can hold it. -/
def HasRoom (t hi d : UInt64) : Prop := 1 ≤ d.toNat ∧ t.toNat + d.toNat ≤ hi.toNat ∧ d.toNat < requestBound

/-- Why no more units are asked for. A target that is no word is told as the largest word. -/
def increaseFault (t hi d : UInt64) : Error :=
  if d.toNat = 0 then .invalidDelta 0
  else .increaseTooLarge t.toNat (min (t.toNat + d.toNat) (Text.naturalBound - 1)) hi.toNat

/-- What has come of an increase. Where it has room, neither the sum of words nor the narrowed word loses anything. -/
structure IncreasesInWords (g : Group) (t lo hi d : UInt64) (es : List (Event Unit)) (g' : Group)
    (v : Option (Except Error Unit)) : Prop where
  asks_iff : requests es ≠ [] ↔ HasRoom t hi d
  exact : HasRoom t hi d → (t + d).toNat = t.toNat + d.toNat ∧ d.toUInt32.toNat = d.toNat
  scales : HasRoom t hi d → ∃ w, (g.manager.scaleUp d.toUInt32.toNat).Ends es g'.manager w ∧ v = relay w
  asked : HasRoom t hi d → requests es <+: g.manager.growthRequests d.toUInt32.toNat
  grown : v = some (.ok ()) → requests es = g.manager.growthRequests d.toUInt32.toNat ∧ g'.InWords (t + d) lo hi
  failed : v ≠ some (.ok ()) → g' = g
  fault : ¬ HasRoom t hi d → v = some (.error (increaseFault t hi d))

theorem HasRoom.exact (h : HasRoom t hi d) : (t + d).toNat = t.toNat + d.toNat ∧ d.toUInt32.toNat = d.toNat := by
  obtain ⟨-, hm, hr⟩ := h
  have hb := hi.toNat_lt
  rw [UInt64.toNat_add, UInt64.toNat_toUInt32]
  exact ⟨Nat.mod_eq_of_lt (by omega), Nat.mod_eq_of_lt hr⟩

theorem InWords.hasRoom_iff (hg : g.InWords t lo hi) : HasRoom t hi d ↔ d.toNat ≠ 0 ∧ g.Admits d.toNat := by
  have hb := hi.toNat_lt
  rw [HasRoom, Admits, hg.target, hg.maxSize, Text.naturalBound, requestBound]
  omega

/-- An increase without room makes no call. -/
theorem IncreasesInWords.of_fault (hn : ¬ HasRoom t hi d) :
    IncreasesInWords g t lo hi d [] g (some (.error (increaseFault t hi d))) where
  asks_iff := iff_of_false (fun h => h rfl) hn
  exact := HasRoom.exact
  scales h := absurd h hn
  asked h := absurd h hn
  grown := nofun
  failed _ := rfl
  fault _ := rfl

theorem InWords.increase (hg : g.InWords t lo hi) (h : (g.increaseSize d.toNat).Ends es g' v) :
    IncreasesInWords g t lo hi d es g' v := by
  have hroom := hg.hasRoom_iff (d := d)
  cases ends_increaseSize.mp h with
  | invalid h0 =>
      have hf : Error.invalidDelta d.toNat = increaseFault t hi d := by rw [increaseFault, if_pos h0, h0]
      rw [hf]
      exact .of_fault fun h => (hroom.mp h).1 h0
  | tooLarge hd ha =>
      have hf : Error.increaseTooLarge g.target (min (g.target + d.toNat) (Text.naturalBound - 1)) g.maxSize =
          increaseFault t hi d := by
        rw [increaseFault, if_neg hd, hg.target, hg.maxSize]
      rw [hf]
      exact .of_fault fun h => ha (hroom.mp h).2
  | @failed _ w hd ha hs hw =>
      have hr := hroom.mpr ⟨hd, ha⟩
      obtain ⟨hne, hp, -⟩ := hs.requests hd
      rw [← hr.exact.2] at hs hp
      refine ⟨iff_of_true hne hr, HasRoom.exact, fun _ => ⟨w, Manager.ends_scaleUp.mpr hs, rfl⟩, fun _ => hp, fun h => ?_,
        fun _ => rfl, fun h => absurd hr h⟩
      exact absurd (relay_eq_ok_iff.mp h) hw
  | grown hd ha hs =>
      have hr := hroom.mpr ⟨hd, ha⟩
      obtain ⟨hne, hp, he⟩ := hs.requests hd
      rw [← hr.exact.2] at hs hp he
      refine ⟨iff_of_true hne hr, HasRoom.exact, fun _ => ⟨_, Manager.ends_scaleUp.mpr hs, rfl⟩, fun _ => hp,
        fun _ => ⟨he rfl, ?_, hg.minSize, hg.maxSize⟩, fun h => absurd rfl h, fun h => absurd hr h⟩
      rw [hr.exact.1, hg.target]

/-! ## A lower target -/

/-- Why the target is not lowered. The minimum is told before the nodes that are to stay. -/
def decreaseFault (g : Group) (t lo d : UInt64) : Error :=
  if d.toNat = 0 then .invalidDelta 0
  else if t.toNat < d.toNat ∨ t.toNat - d.toNat < lo.toNat then
    .decreaseTooLarge t.toNat (t.toNat - d.toNat) lo.toNat
  else .wouldDeleteNodes t.toNat (t.toNat - d.toNat) g.registered

/-- What has come of a decrease of the target. -/
structure DecreasesInWords (g : Group) (t lo hi d : UInt64) (es : List (Event Unit)) (g' : Group)
    (v : Option (Except Error Unit)) : Prop where
  quiet : es = []
  ok_iff : v = some (.ok ()) ↔
    1 ≤ d.toNat ∧ d.toNat ≤ t.toNat ∧ lo.toNat ≤ t.toNat - d.toNat ∧ g.registered ≤ t.toNat - d.toNat
  lowered : v = some (.ok ()) →
    (t - d).toNat = t.toNat - d.toNat ∧ g' = { g with target := (t - d).toNat } ∧ g'.InWords (t - d) lo hi
  failed : v ≠ some (.ok ()) → g' = g ∧ v = some (.error (g.decreaseFault t lo d))

theorem InWords.decrease (hg : g.InWords t lo hi) (h : (g.decreaseTarget d.toNat).Ends es g' v) :
    DecreasesInWords g t lo hi d es g' v := by
  have ht := hg.target
  have hl := hg.minSize
  cases ends_decreaseTarget.mp h with
  | invalid h0 =>
      refine ⟨rfl, iff_of_false nofun (by omega), nofun, fun _ => ⟨rfl, ?_⟩⟩
      rw [decreaseFault, if_pos h0, h0]
  | tooSmall hd hs =>
      rw [ht, hl] at hs ⊢
      refine ⟨rfl, iff_of_false nofun (by omega), nofun, fun _ => ⟨rfl, ?_⟩⟩
      rw [decreaseFault, if_neg hd, if_pos hs]
  | registered hd hle hs hr =>
      rw [ht] at hle hs hr ⊢
      refine ⟨rfl, iff_of_false nofun (by omega), nofun, fun _ => ⟨rfl, ?_⟩⟩
      rw [decreaseFault, if_neg hd, if_neg (by omega)]
  | lowered hd hle hs hr =>
      rw [ht] at hle hs hr ⊢
      have hw : (t - d).toNat = t.toNat - d.toNat := UInt64.toNat_sub_of_le _ _ (UInt64.le_iff_toNat_le.mpr hle)
      refine ⟨rfl, iff_of_true rfl (by omega), fun _ => ⟨hw, by rw [hw], hw.symm, hl, hg.maxSize⟩, fun h => absurd rfl h⟩

/-! ## Fewer units -/

/-- One unit less is not below the minimum. -/
def HasSpare (t lo : UInt64) : Prop := 1 ≤ t.toNat ∧ lo.toNat ≤ t.toNat - 1

/-- How the deletion of a node and of others behind it ends. It goes on to the node just if there is a unit to spare. -/
inductive DeletesInWords (g : Group) (t lo : UInt64) (node : String) (rest : List String) :
    List (Event Unit) → Group → Option (Except Error Unit) → Prop
  | tooSmall : ¬ HasSpare t lo →
      DeletesInWords g t lo node rest [] g (some (.error (.decreaseTooLarge t.toNat (t.toNat - 1) lo.toNat)))
  | failed {es m w} : HasSpare t lo → (g.manager.scaleDown node).Ends es m w → w ≠ some (.ok ()) →
      DeletesInWords g t lo node rest es { g with manager := m } (relay w)
  | removed {es es' m g' v} : HasSpare t lo → (g.manager.scaleDown node).Ends es m (some (.ok ())) →
      (deleteNodes { g with manager := m, target := (t - 1).toNat } rest).Ends es' g' v →
      DeletesInWords g t lo node rest (es ++ es') g' v

theorem HasSpare.toNat_sub_one (h : HasSpare t lo) : (t - 1).toNat = t.toNat - 1 :=
  UInt64.toNat_sub_of_le _ _ (UInt64.le_iff_toNat_le.mpr h.1)

theorem InWords.ends_deleteNodes_cons (hg : g.InWords t lo hi) :
    (g.deleteNodes (node :: rest)).Ends es g' v ↔ DeletesInWords g t lo node rest es g' v := by
  rw [deleteNodes, hg.target, hg.minSize]
  by_cases hs : HasSpare t lo
  · have hguard : ¬ (t.toNat = 0 ∨ t.toNat - 1 < lo.toNat) := by
      obtain ⟨h1, hlo⟩ := hs
      omega
    have ht : g.target - 1 = (t - 1).toNat := by rw [hg.target, hs.toNat_sub_one]
    rw [if_neg hguard, ends_byManager]
    dsimp only
    rw [ht]
    constructor
    · rintro (⟨m, w, h, hw, rfl, rfl⟩ | ⟨es₁, m, es₂, h, hn, rfl⟩)
      · exact .failed hs h hw
      · exact .removed hs h hn
    · intro h
      cases h with
      | tooSmall hn => exact absurd hs hn
      | failed _ h hw => exact .inl ⟨_, _, h, hw, rfl, rfl⟩
      | removed _ h hn => exact .inr ⟨_, _, _, h, hn, rfl⟩
  · have hguard : t.toNat = 0 ∨ t.toNat - 1 < lo.toNat := by
      rw [HasSpare] at hs
      omega
    rw [if_pos hguard, ends_done]
    constructor
    · rintro ⟨rfl, rfl, rfl⟩
      exact .tooSmall hs
    · intro h
      cases h with
      | tooSmall => exact ⟨rfl, rfl, rfl⟩
      | failed hn | removed hn => exact absurd hn hs

/-- A deletion removes some units one by one, each with one to spare, and then has no node left or fails at one. -/
theorem Deletes.exists_removed (h : Deletes g nodes es g' v) :
    ∃ n, n ≤ nodes.length ∧ g'.target + n = g.target ∧ (∀ j < n, g.minSize < g.target - j) ∧
      (v = some (.ok ()) ↔ n = nodes.length) ∧
      (v = some (.error (.decreaseTooLarge g'.target (g'.target - 1) g'.minSize)) ↔
        n < nodes.length ∧ g'.target ≤ g'.minSize) := by
  induction h with
  | done => exact ⟨0, Nat.le_refl _, rfl, nofun, iff_of_true rfl rfl, iff_of_false nofun nofun⟩
  | tooSmall hg =>
      exact ⟨0, Nat.zero_le _, rfl, nofun, iff_of_false nofun nofun, iff_of_true rfl ⟨Nat.succ_pos _, hg⟩⟩
  | unknown hg =>
      refine ⟨0, Nat.zero_le _, rfl, nofun, iff_of_false nofun nofun, iff_of_false nofun fun h => ?_⟩
      exact Nat.not_lt.mpr h.2 hg
  | @refused _ _ _ _ _ e hg =>
      refine ⟨0, Nat.zero_le _, rfl, nofun, iff_of_false ?_ nofun, iff_of_false ?_ fun h => Nat.not_lt.mpr h.2 hg⟩
      · cases e <;> nofun
      · cases e <;> nofun
  | @removed g _ _ _ _ _ _ _ _ hg _ _ ih =>
      obtain ⟨n, hn, ht, hs, hok, hts⟩ := ih
      dsimp only at ht hs
      refine ⟨n + 1, Nat.succ_le_succ hn, by omega, fun j hj => ?_, ?_, ?_⟩
      · cases j with
        | zero => exact hg
        | succ j =>
            have := hs j (by omega)
            omega
      · rw [hok, List.length_cons, Nat.add_right_cancel_iff]
      · rw [hts, List.length_cons, Nat.add_lt_add_iff_right]

/-- What has come of a deletion that has removed `k` units. -/
structure DeletedInWords (t lo hi : UInt64) (nodes : List String) (g' : Group) (v : Option (Except Error Unit))
    (k : UInt64) : Prop where
  exact : (t - k).toNat + k.toNat = t.toNat
  words : g'.InWords (t - k) lo hi
  le : k.toNat ≤ nodes.length
  spare : ∀ j < k, HasSpare (t - j) lo
  ok_iff : v = some (.ok ()) ↔ k.toNat = nodes.length
  tooSmall_iff : v = some (.error (.decreaseTooLarge (t - k).toNat ((t - k).toNat - 1) lo.toNat)) ↔
    k.toNat < nodes.length ∧ ¬ HasSpare (t - k) lo

theorem InWords.delete (hg : g.InWords t lo hi) (h : (g.deleteNodes nodes).Ends es g' v) :
    ∃ k, DeletedInWords t lo hi nodes g' v k := by
  obtain ⟨n, hn, ht, hs, hok, hts⟩ := (ends_deleteNodes.mp h).exists_removed
  obtain ⟨hmin, hmax⟩ := bounds_of_ends (c := .delete nodes) h
  rw [hg.target] at ht hs
  rw [hg.minSize] at hmin hs
  have hb := t.toNat_lt
  have hk : (UInt64.ofNat n).toNat = n := UInt64.toNat_ofNat_of_lt' (by rw [UInt64.size]; omega)
  have hsub (j : UInt64) (hj : j.toNat ≤ n) : (t - j).toNat = t.toNat - j.toNat :=
    UInt64.toNat_sub_of_le _ _ (UInt64.le_iff_toNat_le.mpr (by omega))
  have htk : (t - UInt64.ofNat n).toNat = g'.target := by
    rw [hsub _ hk.le, hk]
    omega
  refine ⟨UInt64.ofNat n, ⟨?_, ⟨htk.symm, hmin, hmax.trans hg.maxSize⟩, ?_, fun j hj => ?_, ?_, ?_⟩⟩
  · rw [htk, hk, ht]
  · rwa [hk]
  · have hj : j.toNat < n := hk ▸ UInt64.lt_iff_toNat_lt.mp hj
    have := hs j.toNat hj
    rw [HasSpare, hsub j hj.le]
    omega
  · rw [hok, hk]
  · have hl : ¬ HasSpare (t - UInt64.ofNat n) lo ↔ g'.target ≤ lo.toNat := by
      rw [HasSpare, htk]
      omega
    rw [hl, htk, hk, ← hmin, hts]

/-- The sizes of a group are words. Then an increase calls the fleet just if there is room for it, and asks for just as many
units as it is told; a decrease lowers the target just if neither the minimum nor a registered node stands against it; a
deletion goes on to a node just if there is a unit to spare. The target moves by as much as natural numbers say, and so do
the sizes that an error tells of. -/
theorem exact_in_words (hg : g.InWords t lo hi) (d : UInt64) :
    (∀ es g' v, (g.increaseSize d.toNat).Ends es g' v → IncreasesInWords g t lo hi d es g' v) ∧
    (∀ es g' v, (g.decreaseTarget d.toNat).Ends es g' v → DecreasesInWords g t lo hi d es g' v) ∧
    (∀ node rest es g' v, (g.deleteNodes (node :: rest)).Ends es g' v ↔ DeletesInWords g t lo node rest es g' v) ∧
    ∀ nodes es g' v, (g.deleteNodes nodes).Ends es g' v → ∃ k, DeletedInWords t lo hi nodes g' v k :=
  ⟨fun _ _ _ h => hg.increase h, fun _ _ _ h => hg.decrease h, fun _ _ _ _ _ => hg.ends_deleteNodes_cons,
    fun _ _ _ _ h => hg.delete h⟩

/-- A group of two units, of which one is to stay, and which may grow as far as words go. -/
def vast : Group := .ofManager ⟨1, 18446744073709551615, "m", "app"⟩ (.ofSnapshot .hostname "m" "app" twoUnits)

/-- The group is told to grow by so much that the sum of the words would be 1, and then to delete both nodes. -/
def straining : List Turn × Group :=
  play act Fleet.Script.one { destroyUnits := [{ outcome := some (.ok []) }] } vast
    [.increase 18446744073709551615, .delete ["n0", "n1"]]

theorem exact_in_words_straining :
    vast.InWords 2 1 18446744073709551615 ∧ ∃ d d', straining.1 = [d, d'] ∧ requests d.events = [] ∧ d.after = vast ∧
      d.value = some (.error (.increaseTooLarge 2 18446744073709551615 18446744073709551615)) ∧
        ∃ k, DeletedInWords 2 1 18446744073709551615 ["n0", "n1"] d'.after d'.value k := by
  have hg : vast.InWords 2 1 18446744073709551615 := ⟨rfl, rfl, rfl⟩
  have hs : Session act vast straining.1 straining.2 := session_play ..
  have h : Session act vast [_, _] straining.2 := hs
  obtain ⟨-, he, h'⟩ := h.head
  obtain ⟨-, he', -⟩ := h'.head
  obtain ⟨hi, -, -, hd⟩ := exact_in_words hg 18446744073709551615
  have hn : ¬ HasRoom 2 18446744073709551615 18446744073709551615 := by
    rw [HasRoom]
    decide
  have hw := hi _ _ _ he
  have hv := hw.fault hn
  refine ⟨hg, _, _, rfl, not_not.mp (mt hw.asks_iff.mp hn), hw.failed (hv ▸ nofun), hv, hd _ _ _ _ he'⟩

end Group
end NodeGroups
