import Mathlib.Data.List.Basic
import NodeGroups.Fleet.Snapshot

/-!
# The machine of a unit

Machines hold containers, which may hold containers again. The search for an id looks among the outermost machines first, and
then goes into one after another, to any depth. It follows the nesting, and so it ends. Main statement:
`Snapshot.search_complete`, that it misses no machine, and that a unit has the name of the machine that is found for it.
-/

namespace NodeGroups.Fleet

variable {id : String} {m : Machine} {machines : List (String × Machine)}

/-- The machine is one of these, or a container on one of them at any depth, and the id is its own. -/
inductive Machine.StandsUnder (m : Machine) (id : String) : List (String × Machine) → Prop
  | here {machines : List (String × Machine)} : (id, m) ∈ machines → m.StandsUnder id machines
  | inside {machines : List (String × Machine)} {k : String} {host : Machine} :
      (k, host) ∈ machines → m.StandsUnder id host.containers → m.StandsUnder id machines

theorem Machine.StandsUnder.cons {e : String × Machine} (h : m.StandsUnder id machines) :
    m.StandsUnder id (e :: machines) := by
  cases h with
  | here hm => exact .here (List.mem_cons_of_mem _ hm)
  | inside hk h => exact .inside (List.mem_cons_of_mem _ hk) h

/-! ## The search -/

/-- What is found among the machines, first of all directly. -/
def search (id : String) (machines : List (String × Machine)) : Option Machine :=
  (machines.lookup id).or (Machine.within? id machines)

theorem container?_eq_search (id : String) (m : Machine) : m.container? id = search id m.containers := by
  cases m
  rw [Machine.container?, search]

theorem within?_cons (id k : String) (host : Machine) (rest : List (String × Machine)) :
    Machine.within? id ((k, host) :: rest) = (search id host.containers).or (Machine.within? id rest) := by
  rw [Machine.within?, container?_eq_search]

theorem mem_of_lookup (h : machines.lookup id = some m) : (id, m) ∈ machines := by
  obtain ⟨before, after, rfl, -⟩ := List.lookup_eq_some_iff.mp h
  simp

theorem exists_lookup_of_mem (h : (id, m) ∈ machines) : ∃ m', machines.lookup id = some m' := by
  rw [← Option.isSome_iff_exists, List.lookup_isSome_iff]
  exact ⟨(id, m), h, beq_self_eq_true id⟩

theorem search_of_mem (h : (id, m) ∈ machines) : ∃ m', search id machines = some m' ∧ (id, m') ∈ machines := by
  obtain ⟨m', hm'⟩ := exists_lookup_of_mem h
  exact ⟨m', by rw [search, hm', Option.some_or], mem_of_lookup hm'⟩

/-! ### What is found stands there -/

mutual
theorem standsUnder_of_container? : (host : Machine) → host.container? id = some m → m.StandsUnder id host.containers
  | ⟨_, _, _, containers⟩, h => by
      rw [Machine.container?, Option.or_eq_some_iff] at h
      rcases h with h | ⟨-, h⟩
      · exact .here (mem_of_lookup h)
      · exact standsUnder_of_within? containers h

theorem standsUnder_of_within? :
    (machines : List (String × Machine)) → Machine.within? id machines = some m → m.StandsUnder id machines
  | [], h => by cases h
  | (_, host) :: rest, h => by
      rw [Machine.within?, Option.or_eq_some_iff] at h
      rcases h with h | ⟨-, h⟩
      · exact .inside List.mem_cons_self (standsUnder_of_container? host h)
      · exact (standsUnder_of_within? rest h).cons
end

theorem standsUnder_of_search (h : search id machines = some m) : m.StandsUnder id machines := by
  rcases Option.or_eq_some_iff.mp h with h | ⟨-, h⟩
  · exact .here (mem_of_lookup h)
  · exact standsUnder_of_within? machines h

/-! ### What stands there is found -/

/-- A search that goes into every machine comes to the one in which there is something to find. -/
theorem isSome_within?_of_mem {k : String} {host : Machine} (hk : (k, host) ∈ machines)
    (h : (search id host.containers).isSome = true) : (Machine.within? id machines).isSome = true := by
  induction machines with
  | nil => cases hk
  | cons e rest ih =>
      obtain ⟨k', host'⟩ := e
      rw [within?_cons, Option.isSome_or, Bool.or_eq_true]
      rcases List.mem_cons.mp hk with he | hk
      · cases he
        exact .inl h
      · exact .inr (ih hk)

theorem Machine.StandsUnder.isSome_search (h : m.StandsUnder id machines) : (search id machines).isSome = true := by
  induction h with
  | here hm =>
      obtain ⟨m', hm', -⟩ := search_of_mem hm
      rw [hm']
      rfl
  | inside hk _ ih =>
      rw [search, Option.isSome_or, Bool.or_eq_true]
      exact .inr (isSome_within?_of_mem hk ih)

theorem search_eq_none_iff : search id machines = none ↔ ∀ m : Machine, ¬ m.StandsUnder id machines := by
  constructor
  · intro hn m h
    have hs := h.isSome_search
    rw [hn] at hs
    cases hs
  · intro h
    cases hs : search id machines with
    | none => rfl
    | some m => exact absurd (standsUnder_of_search hs) (h m)

/-! ## Names -/

variable {s : Snapshot} {source : IdentitySource} {status : UnitStatus} {name : String}

theorem resolve_eq_some_iff :
    source.resolve s status = some name ↔
      status.machine ≠ "" ∧ (∃ m, s.machine? status.machine = some m ∧ source.of m = name) ∧ name ≠ "" := by
  rw [IdentitySource.resolve]
  by_cases hm : status.machine = ""
  · simp [hm]
  · rw [if_neg (by simpa using hm), Option.filter_eq_some_iff, Option.map_eq_some_iff]
    simp [hm]

/-- In whatever order the machines stand, the search for an id comes to nothing just if no machine stands under it at any
depth. Otherwise it comes to one that does, and to an outermost one if there is one. The node of a unit has a name just if the
unit has a machine, and the machine that is found for it has that name, which is not empty. -/
theorem Snapshot.search_complete (s : Snapshot) (id : String) :
    (s.machine? id = none ↔ ∀ m : Machine, ¬ m.StandsUnder id s.machines) ∧
      (∀ m, s.machine? id = some m → m.StandsUnder id s.machines) ∧
      (∀ m, (id, m) ∈ s.machines → ∃ m', s.machine? id = some m' ∧ (id, m') ∈ s.machines) ∧
      ∀ (source : IdentitySource) (status : UnitStatus),
        (∀ name, source.resolve s status = some name ↔
          status.machine ≠ "" ∧ (∃ m, s.machine? status.machine = some m ∧ source.of m = name) ∧ name ≠ "") ∧
        source.resolve s status ≠ some "" := by
  refine ⟨search_eq_none_iff, fun m => standsUnder_of_search, fun m => search_of_mem, fun source status => ?_⟩
  refine ⟨fun name => resolve_eq_some_iff, fun h => ?_⟩
  exact (resolve_eq_some_iff.mp h).2.2 rfl

/-- A container in a container, behind a machine with a container of its own. Its id is that of an outermost machine, too. -/
def nested : Snapshot where
  machines :=
    [("0", { hostname := "n0", containers := [("0/lxd/0", { hostname := "c0" }), ("2", { hostname := "c2" })] }),
      ("1", { hostname := "n1", containers := [("1/lxd/0", { containers := [("1/lxd/0/kvm/0", { hostname := "v0" })] })] }),
      ("2", { hostname := "n2" })]

theorem Snapshot.search_complete_nested :
    IdentitySource.hostname.resolve nested { machine := "1/lxd/0/kvm/0" } = some "v0" ∧
      IdentitySource.hostname.resolve nested { machine := "1/lxd/0" } ≠ some "" ∧
      nested.machine? "1/lxd/1" = none ∧ ∃ m, nested.machine? "2" = some m ∧ ("2", m) ∈ nested.machines := by
  obtain ⟨-, -, -, hv⟩ := Snapshot.search_complete nested "1/lxd/0/kvm/0"
  obtain ⟨-, -, ho, -⟩ := Snapshot.search_complete nested "2"
  refine ⟨((hv _ _).1 "v0").mpr ⟨by decide, ⟨_, rfl, rfl⟩, by decide⟩, (hv _ _).2, by rfl, ?_⟩
  exact ho { hostname := "n2" } (.tail _ (.tail _ (.head _)))

end NodeGroups.Fleet
