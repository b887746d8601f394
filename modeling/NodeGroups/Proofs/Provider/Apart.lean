import Mathlib.Logic.Function.Basic
import NodeGroups.Proofs.Provider.Removals

/-!
# Groups with fleets apart

If every fleet replies from a condition of its own, an operation on one group is no different from one on a provider that
has no other group, and operations on different groups may change places. Main statement: `groups_independent`.
-/

namespace NodeGroups

/-! ## Fleets apart -/

namespace Operation

variable {ι σ τ α φ : Type} [DecidableEq ι]

/-- Fleets in a condition for each of them, which alone tells how it replies, and which only a call to it changes. -/
def apart (reply : ι → Fleets φ Unit) : Fleets (ι → φ) ι := fun fleets i r =>
  let (fleet, answer) := reply i (fleets i) () r
  (Function.update fleets i fleet, answer)

/-- A run on a part that asks only one fleet, as a run on the whole with that fleet among others. -/
def Run.among (i : ι) (put : σ → τ) (fleets : ι → φ) (r : Run Unit φ σ α) : Run ι (ι → φ) τ α where
  fleets := Function.update fleets i r.fleets
  state := put r.state
  value := r.value
  events := r.events.map (Event.map fun _ => i)

theorem run_within_apart (reply : ι → Fleets φ Unit) (i : ι) (put : σ → τ) :
    (op : Operation Unit σ α) → (fleets : ι → φ) →
      (op.within (fun _ => i) put).run (apart reply) fleets = (op.run (reply i) (fleets i)).among i put fleets
  | done s a, fleets => by
      simp [within, bindIn, run, Run.among]
  | warn n rest, fleets => by
      have ih := run_within_apart reply i put rest fleets
      exact congrArg (Run.after [.warn n]) ih
  | call s () r k, fleets => by
      cases ho : (reply i (fleets i) () r).2.outcome with
      | none => cases hl : (reply i (fleets i) () r).2.late <;> simp [within, bindIn, run, Run.among, apart, Event.map, ho, hl]
      | some o =>
          have ih := run_within_apart reply i put (k o) (Function.update fleets i (reply i (fleets i) () r).1)
          rw [Function.update_self] at ih
          cases hl : (reply i (fleets i) () r).2.late <;>
            simp_all [within, bindIn, run, Run.among, Run.after, apart, Event.map]

end Operation

namespace Provider
open Fleet (IdentitySource)
open Operation

variable {p p' : Provider} {es : List (Event Nat)} {v : Option (Except Error Unit)} {id : String} {i j : Nat} {g h : Group}
  {c d : Group.Command}

/-! ## Ids -/

def ids (p : Provider) : List String := p.groups.map (·.id)

theorem Starts.ids_eq {source : IdentitySource} {groups : List Group} {specs : List Spec}
    (h : Starts source groups specs es (some (.ok p))) : p.ids = groups.map (·.id) ++ specs.map (·.id) := by
  generalize hw : some (Except.ok p) = w at h
  induction h with
  | done =>
      cases hw
      exact (List.append_nil _).symm
  | @failed _ _ _ e => cases e <;> cases hw
  | added _ ih =>
      rw [ih hw, List.map_append, List.append_assoc]
      rfl

/-- Nothing that is done to groups changes their ids. -/
theorem ids_of_session {steps : List Turn} (hs : Session act p steps p') : p'.ids = p.ids := by
  obtain ⟨hl, ha⟩ := advances_of_session hs
  refine List.ext_getElem? fun i => ?_
  rw [ids, ids, List.getElem?_map, List.getElem?_map]
  cases hg : p.groups[i]? with
  | none => rw [List.getElem?_eq_none (hl ▸ List.getElem?_eq_none_iff.mp hg)]
  | some g =>
      obtain ⟨_, g', hs', hg', -⟩ := ha i g hg
      rw [hg', Option.map_some, Option.map_some, Group.id_of_session hs']

theorem placeOf?_of_nodup (hn : p.ids.Nodup) (hg : p.groups[i]? = some g) : p.placeOf? g.id = some i := by
  obtain ⟨hi, rfl⟩ := List.getElem?_eq_some_iff.mp hg
  rw [placeOf?, List.findIdx?_eq_some_iff_getElem]
  refine ⟨hi, beq_self_eq_true _, fun k hk he => ?_⟩
  have hik := List.pairwise_iff_getElem.mp hn k i (by simp [ids]; omega) (by simpa [ids] using hi) hk
  simp [ids] at hik
  exact hik (by simpa using he)

theorem placeOf?_of_notMem (hn : id ∉ p.ids) : p.placeOf? id = none := by
  rw [placeOf?, List.findIdx?_eq_none_iff]
  intro g hg
  exact beq_false_of_ne fun he => hn (he ▸ List.mem_map_of_mem hg)

theorem group?_of_mem (hn : p.ids.Nodup) (hg : g ∈ p.groups) : p.group? g.id = some g := by
  obtain ⟨before, after, hp⟩ := List.append_of_mem hg
  rw [ids, hp, List.map_append, List.map_cons, List.nodup_append] at hn
  have hb : before.find? (·.id == g.id) = none := by
    rw [List.find?_eq_none]
    intro g' hg' he
    exact hn.2.2 g'.id (List.mem_map_of_mem hg') g.id List.mem_cons_self (beq_iff_eq.mp he)
  rw [group?, hp, List.find?_append, hb, Option.none_or]
  exact List.find?_cons_of_pos (beq_self_eq_true g.id)

theorem group?_of_notMem (hn : id ∉ p.ids) : p.group? id = none := by
  rw [group?, List.find?_eq_none]
  intro g hg he
  exact hn (beq_iff_eq.mp he ▸ List.mem_map_of_mem hg)

/-! ## One operation -/

section Run
variable {φ : Type} (reply : Nat → Fleets φ Unit) (fleets : Nat → φ)

/-- An operation on a group by its id is one on that group alone, asking that group's fleet. -/
theorem run_on (hn : p.ids.Nodup) (hg : p.groups[i]? = some g) :
    (act (.on g.id c) p).run (apart reply) fleets =
      ((Group.act c g).run (reply i) (fleets i)).among i (fun g' => ⟨p.groups.set i g'⟩) fleets := by
  obtain ⟨g', hg', ho⟩ := onGroup_of_some (placeOf?_of_nodup hn hg) (Group.act c)
  obtain rfl := Option.some.inj (hg.symm.trans hg')
  rw [act, ho, run_within_apart]

/-- An id that no group has. -/
theorem run_on_of_notMem (hn : id ∉ p.ids) :
    (act (.on id c) p).run (apart reply) fleets =
      { fleets, state := p, value := some (.error (.groupNotFound id)), events := [] } := by
  rw [act, onGroup_of_none (placeOf?_of_notMem hn)]
  rfl

/-- The operation that comes second finds its group and its fleet as if it came first. -/
theorem run_on_of_run_on (hn : p.ids.Nodup) (hij : i ≠ j) (hg : p.groups[i]? = some g) (hh : p.groups[j]? = some h) :
    let r := (act (.on g.id c) p).run (apart reply) fleets
    (act (.on h.id d) r.state).run (apart reply) r.fleets =
      ((Group.act d h).run (reply j) (fleets j)).among j (fun h' => ⟨r.state.groups.set j h'⟩) r.fleets := by
  intro r
  have hr : r = _ := run_on reply fleets hn hg
  have hi : r.state.ids = p.ids := ids_of_session (.step .idle (.of_run (apart reply) fleets (act (.on g.id c) p)))
  have hh' : r.state.groups[j]? = some h := by
    rw [hr]
    exact (List.getElem?_set_ne hij).trans hh
  have hf : r.fleets j = fleets j := by
    rw [hr]
    exact Function.update_of_ne hij.symm ..
  rw [run_on reply r.fleets (hi ▸ hn) hh', hf]

/-! ## Two operations -/

/-- Operations on two groups come out the same whichever is first. -/
theorem run_on_comm (hn : p.ids.Nodup) (hij : i ≠ j) (hg : p.groups[i]? = some g) (hh : p.groups[j]? = some h) :
    let r₁ := (act (.on g.id c) p).run (apart reply) fleets
    let r₂ := (act (.on h.id d) r₁.state).run (apart reply) r₁.fleets
    let q₁ := (act (.on h.id d) p).run (apart reply) fleets
    let q₂ := (act (.on g.id c) q₁.state).run (apart reply) q₁.fleets
    q₂.value = r₁.value ∧ q₁.value = r₂.value ∧ q₂.state = r₂.state ∧ q₂.fleets = r₂.fleets ∧
      q₂.events = r₁.events ∧ q₁.events = r₂.events := by
  intro r₁ r₂ q₁ q₂
  have hr₁ : r₁ = _ := run_on reply fleets hn hg
  have hr₂ : r₂ = _ := run_on_of_run_on reply fleets hn hij hg hh
  have hq₁ : q₁ = _ := run_on reply fleets hn hh
  have hq₂ : q₂ = _ := run_on_of_run_on reply fleets hn hij.symm hh hg
  refine ⟨?_, ?_, ?_, ?_, ?_, ?_⟩
  · rw [hq₂, hr₁]
    rfl
  · rw [hq₁, hr₂]
    rfl
  · rw [hq₂, hr₂]
    change Provider.mk (q₁.state.groups.set i _) = Provider.mk (r₁.state.groups.set j _)
    rw [hq₁, hr₁]
    exact congrArg Provider.mk (List.set_comm _ _ hij.symm)
  · rw [hq₂, hr₂]
    change Function.update q₁.fleets i _ = Function.update r₁.fleets j _
    rw [hq₁, hr₁]
    exact Function.update_comm hij.symm ..
  · rw [hq₂, hr₁]
    rfl
  · rw [hq₁, hr₂]
    rfl

end Run

/-! ## Independence -/

theorem callsTo_among {φ σ α τ : Type} {k : Nat} (hk : k ≠ i) (put : σ → τ) (fleets : Nat → φ)
    (r : Run Unit φ σ α) : callsTo k (r.among i put fleets).events = [] :=
  callsTo_map_of_ne hk.symm r.events

/-- A provider has been set up from specs with different ids, any commands have been carried out since, and the fleets
are apart. Then an operation on the group of a spec is one on that group alone, with its own fleet; all other groups and
fleets are as they were and have not been called. Operations on the groups of two specs have the same outcomes in either
order, leave the same groups and fleets, and have made the same calls to each fleet. An operation on an id of no spec does
nothing and fails for that. -/
theorem groups_independent {source : IdentitySource} {specs : List Spec} {es₀ : List (Event Nat)} {p₀ : Provider}
    {steps : List Turn} (h₀ : (start source specs).Ends es₀ () (some (.ok p₀))) (hn : (specs.map (·.id)).Nodup)
    (hs : Session act p₀ steps p) {φ : Type} (reply : Nat → Fleets φ Unit) (fleets : Nat → φ) :
    (∀ (i : Nat) (x : Spec) (c : Group.Command), specs[i]? = some x →
      let r := (act (.on x.id c) p).run (apart reply) fleets
      (∃ g, p.groups[i]? = some g ∧ g.id = x.id ∧
        r = ((Group.act c g).run (reply i) (fleets i)).among i (fun g' => ⟨p.groups.set i g'⟩) fleets) ∧
      ∀ k ≠ i, r.state.groups[k]? = p.groups[k]? ∧ r.fleets k = fleets k ∧ callsTo k r.events = []) ∧
    (∀ (i j : Nat) (x y : Spec) (c d : Group.Command), specs[i]? = some x → specs[j]? = some y → i ≠ j →
      let r₁ := (act (.on x.id c) p).run (apart reply) fleets
      let r₂ := (act (.on y.id d) r₁.state).run (apart reply) r₁.fleets
      let q₁ := (act (.on y.id d) p).run (apart reply) fleets
      let q₂ := (act (.on x.id c) q₁.state).run (apart reply) q₁.fleets
      q₂.value = r₁.value ∧ q₁.value = r₂.value ∧ q₂.state = r₂.state ∧ q₂.fleets = r₂.fleets ∧
        ∀ k, callsTo k (q₁.events ++ q₂.events) = callsTo k (r₁.events ++ r₂.events)) ∧
    ∀ id c, (∀ x ∈ specs, x.id ≠ id) →
      (act (.on id c) p).run (apart reply) fleets =
        { fleets, state := p, value := some (.error (.groupNotFound id)), events := [] } := by
  have hi : p.ids = specs.map (·.id) := (ids_of_session hs).trans (ends_startFrom.mp h₀).ids_eq
  have hp : p.ids.Nodup := hi ▸ hn
  have hgroup {i : Nat} {x : Spec} (hx : specs[i]? = some x) : ∃ g : Group, p.groups[i]? = some g ∧ g.id = x.id := by
    have hx' : p.ids[i]? = some x.id := by
      rw [hi, List.getElem?_map, hx]
      rfl
    rwa [ids, List.getElem?_map, Option.map_eq_some_iff] at hx'
  refine ⟨fun i x c hx => ?_, fun i j x y c d hx hy hij => ?_, fun id c hx => ?_⟩
  · obtain ⟨g, hg, hgx⟩ := hgroup hx
    rw [← hgx]
    intro r
    have hr : r = _ := run_on reply fleets hp hg
    refine ⟨⟨g, hg, rfl, hr⟩, fun k hk => ?_⟩
    rw [hr]
    exact ⟨List.getElem?_set_ne hk.symm, Function.update_of_ne hk .., callsTo_among hk ..⟩
  · obtain ⟨g, hg, hgx⟩ := hgroup hx
    obtain ⟨h, hh, hhy⟩ := hgroup hy
    rw [← hgx, ← hhy]
    intro r₁ r₂ q₁ q₂
    obtain ⟨hv₁, hv₂, hst, hf, he₁, he₂⟩ := run_on_comm reply fleets (c := c) (d := d) hp hij hg hh
    refine ⟨hv₁, hv₂, hst, hf, fun k => ?_⟩
    replace he₁ : q₂.events = r₁.events := he₁
    replace he₂ : q₁.events = r₂.events := he₂
    rw [callsTo_append, callsTo_append, he₁, he₂]
    by_cases hk : k = i
    · have hr₂ : r₂ = _ := run_on_of_run_on reply fleets hp hij hg hh
      rw [hr₂, callsTo_among (hk ▸ hij), List.append_nil, List.nil_append]
    · have hr₁ : r₁ = _ := run_on reply fleets hp hg
      rw [hr₁, callsTo_among hk, List.append_nil, List.nil_append]
  · refine run_on_of_notMem reply fleets fun hm => ?_
    rw [hi] at hm
    obtain ⟨x, hxs, hid⟩ := List.mem_map.mp hm
    exact hx x hxs hid

/-- The fleet of the first group has a unit more to give, and that of the second removes one unit. -/
def giving (i : Nat) : Fleet.Script :=
  if i = 0 then
    { status := [{ outcome := some (.ok Manager.oneUnit) }, { outcome := some (.ok Group.twoUnits) }]
      addUnits := [{ outcome := some (.ok ["app/1"]) }] }
  else { destroyUnits := [{ outcome := some (.ok []) }] }

/-- One node of the second group has been deleted. Now the other one is to be deleted, twice, and then the first group
grows. -/
theorem groups_independent_growing :
    let q₁ := (act (.on "juju-k-app" (.delete ["n1", "n1"])) (removing ["n0"]).2).run
      (apart fun _ => Fleet.Script.one) giving
    let q₂ := (act (.on "juju-m-app" (.increase 1)) q₁.state).run (apart fun _ => Fleet.Script.one) q₁.fleets
    q₁.value = some (.error (.decreaseTooLarge 0 0 0)) ∧ q₂.value = some (.ok ()) ∧
      q₂.state.groups.map (·.target) = [2, 0] ∧ callsTo 0 (q₁.events ++ q₂.events) =
        [.answered () (.status ["app"]) Manager.oneUnit, .answered () (.addUnits "app" 1) ["app/1"],
          .answered () (.status ["app"]) Group.twoUnits] := by
  intro q₁ q₂
  obtain ⟨-, h, -⟩ := groups_independent ends_start_twoGroups (by decide) (session_removing ["n0"])
    (fun _ => Fleet.Script.one) giving
  obtain ⟨hv₂, hv₁, hs, -, hc⟩ := h 0 1 ⟨0, 5, "m", "app"⟩ ⟨0, 5, "k", "app"⟩ (.increase 1) (.delete ["n1", "n1"]) rfl rfl
    (by decide)
  replace hv₁ : q₁.value = _ := hv₁
  replace hv₂ : q₂.value = _ := hv₂
  replace hs : q₂.state = _ := hs
  refine ⟨hv₁.trans rfl, hv₂.trans rfl, ?_, (hc 0).trans rfl⟩
  rw [hs]
  rfl

end Provider
end NodeGroups
