import NodeGroups.Proofs.Fleet.Clearing
import NodeGroups.Proofs.Manager.Listed
import NodeGroups.Proofs.Manager.Names

/-!
# Teardown makes no difference

A fleet may list a unit for a while after its removal, until the unit is gone for good. A manager does just what it would do
if the fleet no longer listed such units at all, and if it went over units with different names in another order. Main
statement: `alike_play_clearing`.
-/

namespace NodeGroups.Manager
open Fleet (IdentitySource Snapshot UnitStatus cleared clearing)
open Operation

variable {m m' : Manager} {app id : String} {gone : List String} {s : Snapshot} {rest : List Snapshot}
  {es : List (Event Unit)} {v : Option (Except Error Unit)}

def unretired (m : Manager) : Manager := { m with retired := ∅ }

/-- What is true of a manager that has asked for the removal of these units, if the fleet will send these snapshots. -/
structure Removing (app : String) (m : Manager) (gone : List String) (rest : List Snapshot) : Prop where
  application : m.application = app
  deleting : ∀ id, m.Deleting id → id ∈ gone
  retired : ∀ id, m.retired.contains id = true → id ∈ gone
  staying : ∀ id ∈ gone, ¬ m.Staying id
  leaving : ∀ id ∈ gone, ∀ s ∈ rest, s.lists app id = true → m.Leaving id
  order : ∀ id ∈ gone, rest.Pairwise fun s t => t.lists app id = true → s.lists app id = true

namespace Removing

theorem ofSnapshot {source : IdentitySource} {model : String} :
    Removing app (ofSnapshot source model app s) [] rest where
  application := rfl
  deleting := fun _ hd => absurd hd not_deleting_ofSnapshot
  retired := fun _ hr => nomatch hr
  staying := fun _ hid => absurd hid List.not_mem_nil
  leaving := fun _ hid => absurd hid List.not_mem_nil
  order := fun _ hid => absurd hid List.not_mem_nil

theorem suffix (new : List Snapshot) (h : Removing app m gone (new ++ rest)) : Removing app m gone rest :=
  { h with
    leaving := fun id hid s hs => h.leaving id hid s (List.mem_append_right _ hs)
    order := fun id hid => (List.pairwise_append.mp (h.order id hid)).2.1 }

/-! ## Removals -/

theorem mark {u : TrackedUnit} (h : Removing app m gone rest)
    (ho : rest.Pairwise fun s t => t.lists app id = true → s.lists app id = true) :
    Removing app (m.mark id u) (gone ++ [id]) rest where
  application := h.application
  deleting := fun j hd => by
    rcases deleting_mark.mp hd with rfl | hd
    · simp
    · exact List.mem_append_left _ (h.deleting j hd)
  retired := fun j hr => List.mem_append_left _ (h.retired j hr)
  staying := fun j hj hs => by
    obtain ⟨hne, hs⟩ := staying_mark.mp hs
    exact h.staying j ((List.mem_append.mp hj).resolve_right (by simpa using hne)) hs
  leaving := fun j hj s hs hl => by
    rcases List.mem_append.mp hj with hj | hj
    · exact (h.leaving j hj s hs hl).mark
    · exact .inl (deleting_mark.mpr (.inl (List.mem_singleton.mp hj)))
  order := fun j hj => by
    rcases List.mem_append.mp hj with hj | hj
    · exact h.order j hj
    · rwa [List.mem_singleton.mp hj]

theorem scaleDown_unretired {found : Option (String × TrackedUnit)} {node : String} (h : ScalesDownTo m found node es m' v) :
    ScalesDownTo m.unretired found node (cleared app gone es) m'.unretired v := by
  cases h with
  | unknown hb => exact .unknown hb
  | @refused id u e hb =>
      have hs : ScalesDownTo m.unretired found node [.failed () (.destroyUnits [id] false false) e]
          (m.mark id u).unretired (unanswered e) := .refused hb
      cases e <;> exact hs
  | accepted hb =>
      rw [cleared, Fleet.cleared_map_warn]
      exact .accepted hb

/-! ## Requests for more units -/

/-- The same units come up, because a unit that has been asked to be removed is listed before if it is afterwards. -/
theorem fresh_without {before after : Snapshot} (h : Removing app m gone (before :: after :: rest)) :
    m.unretired.fresh (before.without app gone) (after.without app gone) = m.fresh before after := by
  obtain rfl := h.application
  refine Table.ext_get? fun j => ?_
  have hc : (m.unretired.fresh (before.without m.application gone) (after.without m.application gone)).get? j =
      (((after.without m.application gone).unitsOf m.application).get? j).filter fun _ =>
        !(before.without m.application gone).lists m.application j && !m.units.contains j := get?_fresh
  rw [hc, get?_fresh, Snapshot.get?_unitsOf_without]
  by_cases hj : j ∈ gone
  · rw [if_pos hj]
    cases ha : (after.unitsOf m.application).get? j with
    | none => rfl
    | some st =>
        have hb : before.lists m.application j = true :=
          List.rel_of_pairwise_cons (h.order j hj) List.mem_cons_self (Table.contains_iff.mpr ⟨st, ha⟩)
        simp [hb, Option.filter]
  · have hl : (before.without m.application gone).lists m.application j = before.lists m.application j := by
      rw [Bool.eq_iff_iff, Snapshot.lists_without, and_iff_right hj]
    rw [if_neg hj, hl]

theorem track {before after : Snapshot} (h : Removing app m gone (before :: after :: rest)) :
    Removing app (m.track (m.fresh before after).entries) gone rest := by
  have hb : ∀ id ∈ gone, ∀ s ∈ after :: rest, s.lists app id = true → before.lists app id = true :=
    fun id hid s hs => List.rel_of_pairwise_cons (h.order id hid) hs
  obtain rfl := h.application
  exact {
    application := rfl
    deleting := fun id hd => h.deleting id (deleting_track.mp hd)
    retired := h.retired
    staying := fun id hid hs => by
      rcases staying_track.mp hs with hf | hs
      · obtain ⟨ha, hn, -⟩ := contains_fresh_iff.mp hf
        rw [hb id hid after List.mem_cons_self ha] at hn
        cases hn
      · exact h.staying id hid hs
    leaving := fun id hid s hs hl => by
      have hbl := hb id hid s (List.mem_cons_of_mem _ hs) hl
      exact (h.leaving id hid before List.mem_cons_self hbl).track hbl
    order := (h.suffix [before, after]).order }

theorem scaleUp_unretired {count : Nat} (hu : ScalesUp m count es m' v)
    (h : Removing app m gone (fetched es ++ rest)) :
    ScalesUp m.unretired count (cleared app gone es) m'.unretired v ∧ Removing app m' gone rest := by
  cases hu with
  | zero hc => exact ⟨.zero hc, h⟩
  | @unseen e hc =>
      have hs := ScalesUp.unseen (m := m.unretired) (e := e) hc
      cases e <;> exact ⟨hs, h⟩
  | @refused before e hc =>
      have hs : ScalesUp m.unretired count [.answered () (.status [m.application]) (before.without app gone),
          .failed () (.addUnits m.application count) e] m.unretired (unanswered e) := .refused hc
      cases e <;> exact ⟨hs, h.suffix [before]⟩
  | @lost before names e hc =>
      have hs : ScalesUp m.unretired count [.answered () (.status [m.application]) (before.without app gone),
          .answered () (.addUnits m.application count) names, .failed () (.status [m.application]) e] m.unretired
          (unanswered e) := .lost hc
      cases e <;> exact ⟨hs, h.suffix [before]⟩
  | @grown before names after hc =>
      rw [fetched_append, fetched_map_warn] at h
      have hs := @ScalesUp.grown m.unretired count (before.without app gone) names (after.without app gone) hc
      rw [h.fresh_without] at hs
      rw [Fleet.cleared_append, Fleet.cleared_map_warn]
      simp only [cleared, Event.asked, List.append_nil]
      exact ⟨hs, h.track⟩

/-! ## Reconciliation -/

theorem observed_without {status : UnitStatus} (h : Removing app m gone rest) (hid : id ∉ gone) :
    m.unretired.observed (s.without app gone) id status = m.observed s id status := by
  have hr : m.retired.contains id = false := by
    rw [← Bool.not_eq_true]
    exact mt (h.retired id) hid
  simp only [observed, hr]
  rfl

theorem reconciled (h : Removing app m gone (s :: rest)) : Removing app (m.reconciled s) gone rest := by
  obtain rfl := h.application
  exact {
    application := application_reconciled
    deleting := fun id hd => absurd hd not_deleting_reconciled
    retired := fun id hr => (contains_retired_reconciled.mp hr).2.elim (h.retired id) (h.deleting id)
    staying := fun id hid hs => by
      have hl := hs.lists_of_reconciled
      exact ((h.leaving id hid s List.mem_cons_self hl).reconciled hl).not_staying hs
    leaving := fun id hid t ht hl => by
      have hs := List.rel_of_pairwise_cons (h.order id hid) ht hl
      exact (h.leaving id hid s List.mem_cons_self hs).reconciled hs
    order := (h.suffix [s]).order }

theorem reconciled_without (h : Removing app m gone (s :: rest)) :
    m.unretired.reconciled (s.without app gone) = (m.reconciled s).unretired := by
  have hk := h.reconciled
  obtain rfl := h.application
  have hu : (m.unretired.reconciled (s.without m.application gone)).units = (m.reconciled s).units := by
    refine Table.ext_get? fun j => ?_
    by_cases hj : j ∈ gone
    · have hn : (m.reconciled s).units.get? j = none := by
        rw [Option.eq_none_iff_forall_ne_some]
        intro u hu
        rcases staying_or_deleting_iff.mpr ⟨u, hu⟩ with hs | hd
        · exact hk.staying j hj hs
        · exact not_deleting_reconciled hd
      rw [hn, get?_units_reconciled]
      have hl : ((s.without m.application gone).unitsOf m.application).get? j = none := by
        rw [Snapshot.get?_unitsOf_without, if_pos hj]
      exact congrArg (Option.bind · _) hl
    · have hl : ((s.without m.application gone).unitsOf m.application).get? j = (s.unitsOf m.application).get? j := by
        rw [Snapshot.get?_unitsOf_without, if_neg hj]
      rw [get?_units_reconciled, get?_units_reconciled]
      simp only [h.observed_without hj]
      exact congrArg (Option.bind · _) hl
  have hr : (m.unretired.reconciled (s.without m.application gone)).retired = ∅ := by
    refine Table.ext_get? fun j => ?_
    refine (Table.contains_eq_false_iff.mp ?_).trans rfl
    rw [← Bool.not_eq_true, contains_retired_reconciled]
    rintro ⟨hl, hr | hd⟩
    · cases hr
    · exact (Snapshot.lists_without.mp hl).1 (h.deleting j hd)
  rw [reconciled_eq, hu, hr, m.reconciled_eq]
  rfl

/-! ## One operation -/

/-- An operation does the same without the retired units, if the fleet clears the units `gone` away. -/
theorem ends_unretired {i : Instruction} (he : (follow i m).Ends es m' v) (h : Removing app m gone (fetched es ++ rest))
    (ho : ∀ id ∈ asked es, rest.Pairwise fun s t => t.lists app id = true → s.lists app id = true) :
    (follow i m.unretired).Ends (cleared app gone es) m'.unretired v ∧ Removing app m' (gone ++ asked es) rest := by
  obtain ⟨c, scan⟩ := i
  cases c with
  | scaleUp count =>
      have hu := ends_scaleUp.mp he
      obtain ⟨hs, hk⟩ := scaleUp_unretired hu h
      rw [hu.asked_eq_nil, List.append_nil]
      exact ⟨ends_scaleUp.mpr hs, hk⟩
  | scaleDown node =>
      have hd := ends_scaleDownIn.mp he
      refine ⟨ends_scaleDownIn.mpr (scaleDown_unretired hd), ?_⟩
      rcases hd.asks_or_marks with ⟨-, ha, rfl⟩ | ⟨j, u, -, ha, rfl⟩
      · rw [ha, List.append_nil]
        exact h.suffix _
      · rw [ha] at ho ⊢
        exact (h.suffix _).mark (ho j List.mem_cons_self)
  | reconcile =>
      cases ends_reconcile.mp he with
      | @unseen e =>
          have hs := Reconciles.unseen (m := m.unretired) (e := e)
          rw [show asked _ = [] from rfl, List.append_nil]
          cases e <;> exact ⟨ends_reconcile.mpr hs, h⟩
      | @seen s =>
          have hs := Reconciles.seen (m := m.unretired) (s := s.without app gone)
          rw [h.reconciled_without] at hs
          rw [show asked _ = [] from rfl, List.append_nil]
          exact ⟨ends_reconcile.mpr hs, h.reconciled⟩

end Removing

/-! ## Runs -/

/-- A unit whose removal has been asked for is not listed again once it has been missing from a snapshot. -/
def Vanishing (app : String) (steps : List ScanTurn) : Prop :=
  ∀ before d after id, steps = before ++ d :: after → MarksIn d id →
    (fetched (eventsOf after)).Pairwise fun s t => t.lists app id = true → s.lists app id = true

theorem Vanishing.tail {d : ScanTurn} {steps : List ScanTurn} (h : Vanishing app (d :: steps)) : Vanishing app steps :=
  fun before d' after id hs => h (d :: before) d' after id (congrArg (d :: ·) hs)

/-- Two operations go alike, but for what the first manager has retired and what the snapshots list. -/
structure Alike (d d' : ScanTurn) : Prop where
  command : d'.command.command = d.command.command
  after : d'.after = d.after.unretired
  value : d'.value = d.value
  requests : d'.events.filterMap (Event.requestTo? ()) = d.events.filterMap (Event.requestTo? ())
  notices : d'.events.filterMap Event.notice? = d.events.filterMap Event.notice?

/-- The retired units do not matter to what an instruction does in place of another. -/
theorem follow_unretired {i j : Instruction} (h : i.Matches m j) : follow j m.unretired = follow i m.unretired := by
  have hm : i.Matches m.unretired j := ⟨h.command, h.scan⟩
  exact hm.follow_eq

theorem alike_play_of_removing {φ : Type} {reply : Fleets φ Unit} {is js : List Instruction} {fleets : φ}
    (hv : Vanishing app (play follow reply fleets m is).1)
    (hm : List.Forall₂ (fun d j => d.command.Matches d.before j) (play follow reply fleets m is).1 js)
    (h : Removing app m gone (fetched (eventsOf (play follow reply fleets m is).1))) :
    List.Forall₂ Alike (play follow reply fleets m is).1
      (play follow (clearing app reply) (fleets, gone) m.unretired js).1 := by
  induction is generalizing m gone fleets js with
  | nil =>
      cases hm
      exact .nil
  | cons i is ih =>
      have hp : (play follow reply fleets m (i :: is)).1 = _ :: (play follow reply _ _ is).1 := rfl
      rw [hp] at h hv hm ⊢
      rw [eventsOf, List.flatMap_cons, fetched_append] at h
      cases hm with
      | @cons _ j _ js hj hm =>
          have he := Ends.of_run reply fleets (follow i m)
          have ho := fun id ha => hv [] _ _ id rfl ((mem_asked_iff_marksIn he).mp ha)
          obtain ⟨he', hk⟩ := h.ends_unretired he ho
          -- the other run gets the cleared replies, so it ends as was worked out, and the induction goes on from there
          obtain ⟨hes, hst, hva, hfl⟩ := run_of_replies _ he' (Fleet.replies_clearing (replies_run reply _ fleets))
          have hp' : (play follow (clearing app reply) (fleets, gone) m.unretired (j :: js)).1 =
            _ :: (play follow (clearing app reply) _ _ js).1 := rfl
          rw [hp', follow_unretired hj, hes, hst, hva, hfl]
          exact .cons ⟨hj.command, rfl, rfl, Fleet.requestTo?_cleared (), Fleet.notice?_cleared⟩ (ih hv.tail hm hk)

/-- A manager has been set up from a snapshot, and its fleet may list units for a while after their removal. Operation by
operation it does as with a fleet that leaves them out at once: it makes the same calls, gives the same warnings and
results, and tracks the same units. In the end nothing but the retired units is different. The units may be gone over in
another order with the other fleet whenever no two of them have one name. -/
theorem alike_play_clearing {φ : Type} {reply : Fleets φ Unit} {fleets : φ} {source : IdentitySource}
    {model app : String} {s : Snapshot} {is js : List Instruction}
    (h : Vanishing app (play follow reply fleets (ofSnapshot source model app s) is).1)
    (hm : List.Forall₂ (fun d j => d.command.Matches d.before j)
      (play follow reply fleets (ofSnapshot source model app s) is).1 js) :
    List.Forall₂ Alike (play follow reply fleets (ofSnapshot source model app s) is).1
      (play follow (clearing app reply) (fleets, []) (ofSnapshot source model app s) js).1 :=
  alike_play_of_removing h hm .ofSnapshot

theorem Vanishing.of_pairwise {steps : List ScanTurn}
    (h : ∀ id, (fetched (eventsOf steps)).Pairwise fun s t => t.lists app id = true → s.lists app id = true) :
    Vanishing app steps := by
  rintro before d after id rfl -
  have hp := h id
  rw [eventsOf, List.flatMap_append, List.flatMap_cons, fetched_append, fetched_append] at hp
  exact (List.pairwise_append.mp (List.pairwise_append.mp hp).2.1).2.1

def bothListed : Snapshot := listing [("app/0", "n0"), ("app/1", "n1")]

def secondListed : Snapshot := listing [("app/1", "n1")]

theorem lists_of_secondListed (h : secondListed.lists "app" id = true) : bothListed.lists "app" id = true := by
  have hid : id ∈ ["app/1"] := Table.mem_keys_iff.mpr h
  rw [List.mem_singleton.mp hid]
  rfl

/-- A fleet that lists a unit after its removal, until the last snapshot. -/
def lagging : Fleet.Script where
  status := [{ outcome := some (.ok bothListed) }, { outcome := some (.ok bothListed) }, { outcome := some (.ok bothListed) },
    { outcome := some (.ok secondListed) }]
  addUnits := [{ outcome := some (.ok []) }]
  destroyUnits := [{ outcome := some (.ok []) }]

/-- The first of two units is removed, with the units gone over in that order. -/
def removingFirst (scan : Scan) : List Instruction :=
  [⟨.scaleDown "n0", scan⟩, ⟨.reconcile, scan⟩, ⟨.scaleUp 1, scan⟩, ⟨.reconcile, scan⟩]

theorem alike_play_clearing_lagging :
    let run := play follow Fleet.Script.one lagging (.ofSnapshot .hostname "m" "app" bothListed) (removingFirst .ascending)
    run.1.map (·.after.retired.keys) = [[], ["app/0"], ["app/0"], []] ∧
      List.Forall₂ Alike run.1
        (play follow (clearing "app" Fleet.Script.one) (lagging, []) (.ofSnapshot .hostname "m" "app" bothListed)
          (removingFirst .descending)).1 := by
  refine ⟨by decide, alike_play_clearing (.of_pairwise fun id => ?_) (matches_of_unambiguous rfl (by decide))⟩
  have hf : fetched (eventsOf (play follow Fleet.Script.one lagging (.ofSnapshot .hostname "m" "app" bothListed)
      (removingFirst .ascending)).1) = [bothListed, bothListed, bothListed, secondListed] := rfl
  simpa [hf] using lists_of_secondListed

end NodeGroups.Manager
