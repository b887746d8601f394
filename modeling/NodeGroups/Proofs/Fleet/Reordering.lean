import NodeGroups.Proofs.Fleet.Machines

/-!
# Machines in another order

What a fleet says of its machines comes in tables, and each time that it is read they may be gone over in another order. If a
container can be found under an id on one machine or on another, a search may come to the one or to the other. So a node may
get its name from different machines, but it makes no difference to whether it has one if each of them has a name or none has.
Main statement: `isSome_resolve_of_reordered`.
-/

namespace NodeGroups.Fleet

/-- The same machines by the same ids in another order, and so the containers on each. -/
inductive Machine.Reordered : List (String × Machine) → List (String × Machine) → Prop
  | nil : Reordered [] []
  | machine {id m cs ms ms'} : Reordered m.containers cs → Reordered ms ms' →
      Reordered ((id, m) :: ms) ((id, { m with containers := cs }) :: ms')
  | swap {e f ms} : Reordered (e :: f :: ms) (f :: e :: ms)
  | trans {ms ms' ms''} : Reordered ms ms' → Reordered ms' ms'' → Reordered ms ms''

variable {id : String} {m : Machine} {ms ms' : List (String × Machine)}

namespace Machine.Reordered

theorem refl : (ms : List (String × Machine)) → Reordered ms ms
  | [] => .nil
  | (_, ⟨_, _, _, containers⟩) :: ms => .machine (refl containers) (refl ms)

theorem symm (h : Reordered ms ms') : Reordered ms' ms := by
  induction h with
  | nil => exact .nil
  | @machine _ m cs _ _ _ _ ihc ih =>
      obtain ⟨hostname, dnsName, instanceId, containers⟩ := m
      exact .machine (m := ⟨hostname, dnsName, instanceId, cs⟩) ihc ih
  | swap => exact .swap
  | trans _ _ ih ih' => exact ih'.trans ih

/-- Each machine is still there, with its containers in another order. -/
theorem exists_mem (h : Reordered ms ms') (hm : (id, m) ∈ ms) :
    ∃ cs, (id, { m with containers := cs }) ∈ ms' ∧ Reordered m.containers cs := by
  induction h generalizing m with
  | nil => cases hm
  | @machine k host cs ms ms' hc _ _ ih =>
      rcases List.mem_cons.mp hm with he | hm
      · cases he
        exact ⟨cs, List.mem_cons_self, hc⟩
      · obtain ⟨cs', hcs, hr⟩ := ih hm
        exact ⟨cs', List.mem_cons_of_mem _ hcs, hr⟩
  | @swap e f ms =>
      obtain ⟨hostname, dnsName, instanceId, containers⟩ := m
      exact ⟨containers, (List.Perm.swap f e ms).mem_iff.mp hm, .refl _⟩
  | trans _ _ ih ih' =>
      obtain ⟨cs, hcs, hr⟩ := ih hm
      obtain ⟨cs', hcs', hr'⟩ := ih' hcs
      exact ⟨cs', hcs', hr.trans hr'⟩

end Machine.Reordered

/-! ## Searches -/

/-- A search for the id may come to the machine, in some order of the tables: it stands under the id directly, or no machine
does and it may be found on one of the machines. -/
inductive Machine.MayBeFound (m : Machine) (id : String) : List (String × Machine) → Prop
  | here {ms : List (String × Machine)} : (id, m) ∈ ms → m.MayBeFound id ms
  | inside {ms : List (String × Machine)} {k : String} {host : Machine} :
      (∀ e ∈ ms, e.1 ≠ id) → (k, host) ∈ ms → m.MayBeFound id host.containers → m.MayBeFound id ms

/-- What may be found in one order may be found in every other. -/
theorem Machine.MayBeFound.of_reordered (h : m.MayBeFound id ms) (hr : Machine.Reordered ms ms') :
    ∃ cs, Machine.MayBeFound { m with containers := cs } id ms' := by
  induction h generalizing ms' with
  | here hm =>
      obtain ⟨cs, hcs, -⟩ := hr.exists_mem hm
      exact ⟨cs, .here hcs⟩
  | @inside ms k host hn hk _ ih =>
      obtain ⟨cs, hcs, hrc⟩ := hr.exists_mem hk
      obtain ⟨cs', h⟩ := ih hrc
      refine ⟨cs', .inside (fun e he hid => ?_) hcs h⟩
      obtain ⟨_, hm, -⟩ := hr.symm.exists_mem he
      exact hn _ hm hid

theorem Machine.MayBeFound.standsUnder (h : m.MayBeFound id ms) : m.StandsUnder id ms := by
  induction h with
  | here hm => exact .here hm
  | inside _ hk _ ih => exact .inside hk ih

mutual
theorem mayBeFound_of_container? : (host : Machine) → host.container? id = some m → m.MayBeFound id host.containers
  | ⟨_, _, _, containers⟩, h => by
      rw [Machine.container?, Option.or_eq_some_iff] at h
      rcases h with h | ⟨hn, h⟩
      · exact .here (mem_of_lookup h)
      · obtain ⟨k, host, hk, h⟩ := exists_mayBeFound_of_within? containers h
        refine .inside (fun e he hid => ?_) hk h
        simpa [hid] using List.lookup_eq_none_iff.mp hn e he

theorem exists_mayBeFound_of_within? : (ms : List (String × Machine)) → Machine.within? id ms = some m →
    ∃ k host, (k, host) ∈ ms ∧ m.MayBeFound id host.containers
  | [], h => by cases h
  | (k, host) :: rest, h => by
      rw [Machine.within?, Option.or_eq_some_iff] at h
      rcases h with h | ⟨-, h⟩
      · exact ⟨k, host, List.mem_cons_self, mayBeFound_of_container? host h⟩
      · obtain ⟨k', host', hk, h⟩ := exists_mayBeFound_of_within? rest h
        exact ⟨k', host', List.mem_cons_of_mem _ hk, h⟩
end

theorem mayBeFound_of_search (h : search id ms = some m) : m.MayBeFound id ms := by
  rw [← container?_eq_search id { containers := ms }] at h
  exact mayBeFound_of_container? _ h

/-! ## Names -/

/-- The same snapshot, but for the order of its machines. -/
structure Snapshot.Reordered (s s' : Snapshot) : Prop where
  applications : s'.applications = s.applications
  machines : Machine.Reordered s.machines s'.machines

/-- All machines that may be found under one id have names, or none of them has. This is so if no two have one id. -/
def IdentitySource.Steady (source : IdentitySource) (s : Snapshot) : Prop :=
  ∀ id (m m' : Machine), m.MayBeFound id s.machines → m'.MayBeFound id s.machines → source.of m = "" → source.of m' = ""

variable {s s' : Snapshot} {source : IdentitySource} {status : UnitStatus}

theorem IdentitySource.of_containers (source : IdentitySource) (m : Machine) (cs : List (String × Machine)) :
    source.of { m with containers := cs } = source.of m := by
  cases source <;> rfl

/-- The node of a unit has a name just if a machine that may be found for it has one. -/
theorem isSome_resolve_iff (hs : source.Steady s) :
    (source.resolve s status).isSome = true ↔
      status.machine ≠ "" ∧ ∃ m : Machine, m.MayBeFound status.machine s.machines ∧ source.of m ≠ "" := by
  rw [Option.isSome_iff_exists]
  constructor
  · rintro ⟨name, h⟩
    obtain ⟨hm, ⟨m, hf, rfl⟩, hn⟩ := resolve_eq_some_iff.mp h
    exact ⟨hm, m, mayBeFound_of_search hf, hn⟩
  · rintro ⟨hm, m, hf, hn⟩
    obtain ⟨m', hf'⟩ := Option.isSome_iff_exists.mp hf.standsUnder.isSome_search
    have hn' : source.of m' ≠ "" := fun he => hn (hs _ m' m (mayBeFound_of_search hf') hf he)
    exact ⟨source.of m', resolve_eq_some_iff.mpr ⟨hm, ⟨m', hf', rfl⟩, hn'⟩⟩

theorem IdentitySource.Steady.of_reordered (hs : source.Steady s) (hr : s.Reordered s') : source.Steady s' := by
  intro id m m' hm hm' hn
  obtain ⟨cs, hm⟩ := hm.of_reordered hr.machines.symm
  obtain ⟨cs', hm'⟩ := hm'.of_reordered hr.machines.symm
  have h := hs id _ _ hm hm'
  rw [source.of_containers, source.of_containers] at h
  exact h hn

/-- Whether the node of a unit has a name does not depend on the order of the machines. -/
theorem isSome_resolve_of_reordered (hs : source.Steady s) (hr : s.Reordered s') (status : UnitStatus) :
    (source.resolve s' status).isSome = (source.resolve s status).isSome := by
  rw [Bool.eq_iff_iff, isSome_resolve_iff (hs.of_reordered hr), isSome_resolve_iff hs]
  refine and_congr_right fun _ => ⟨?_, ?_⟩
  · rintro ⟨m, hm, hn⟩
    obtain ⟨cs, hm⟩ := hm.of_reordered hr.machines.symm
    exact ⟨_, hm, source.of_containers m cs ▸ hn⟩
  · rintro ⟨m, hm, hn⟩
    obtain ⟨cs, hm⟩ := hm.of_reordered hr.machines
    exact ⟨_, hm, source.of_containers m cs ▸ hn⟩

/-- What is read when a snapshot is read once more: the same again, or the same with its machines in another order, if this
makes no difference to whether nodes have names. -/
def IdentitySource.Repeats (source : IdentitySource) (s s' : Snapshot) : Prop :=
  s' = s ∨ s.Reordered s' ∧ source.Steady s

theorem IdentitySource.Repeats.applications_eq (h : source.Repeats s s') : s'.applications = s.applications := by
  rcases h with rfl | ⟨hr, -⟩
  · rfl
  · exact hr.applications

theorem IdentitySource.Repeats.isSome_resolve_eq (h : source.Repeats s s') (status : UnitStatus) :
    (source.resolve s' status).isSome = (source.resolve s status).isSome := by
  rcases h with rfl | ⟨hr, hs⟩
  · rfl
  · exact isSome_resolve_of_reordered hs hr status

end NodeGroups.Fleet
