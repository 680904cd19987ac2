import Mathlib.Data.List.Nodup
import Mathlib.Logic.Function.Basic

/-!
# Hash maps

A hash map is the list of its entries, in the order in which an iterator meets them. Putting a key
replaces its entry, and iteration order is unspecified, so the new entry stands in front.

## Main definitions

* `HashMap`, `HashMap.get`, `HashMap.put`, `HashMap.remove`

## Main results

* `HashMap.mem_put`, `HashMap.mem_remove`: the entries behind an update
* `HashMap.get_eq_none_iff`, `HashMap.mem_of_get`: a lookup meets exactly the keys of the entries
* `HashMap.get_filter`: a lookup in a map without some of its keys
* `HashMap.nodup_put`, `HashMap.nodup_remove`: an update keeps the keys distinct
* `HashMap.eq_of_mem`: distinct keys have one value each
* `HashMap.update_some_iff`, `HashMap.update_none_iff`: the entries of an updated map, if the map is
  the function of its lookups
-/

/-- A `java.util.HashMap` as the list of its entries. -/
abbrev HashMap (κ α : Type*) := List (κ × α)

namespace HashMap

variable {κ α : Type*} [DecidableEq κ] {m : HashMap κ α} {k k' : κ} {v v' : α}

/-- `map.get(key)`; an absent key reads as `null`. -/
def get (m : HashMap κ α) (k : κ) : Option α := (m.find? fun e => e.1 = k).map Prod.snd

/-- `map.remove(key)`. -/
def remove (m : HashMap κ α) (k : κ) : HashMap κ α := m.filter fun e => e.1 ≠ k

/-- `map.put(key, value)`. -/
def put (m : HashMap κ α) (k : κ) (v : α) : HashMap κ α := (k, v) :: remove m k

theorem mem_remove {e : κ × α} : e ∈ remove m k ↔ e ∈ m ∧ e.1 ≠ k := by
  simp [remove, List.mem_filter]

theorem mem_put {e : κ × α} : e ∈ put m k v ↔ e = (k, v) ∨ e ∈ m ∧ e.1 ≠ k := by
  rw [put, List.mem_cons, mem_remove]

theorem get_eq_none_iff : get m k = none ↔ ∀ e ∈ m, e.1 ≠ k := by
  simp [get, List.find?_eq_none]

theorem mem_of_get (h : get m k = some v) : (k, v) ∈ m := by
  obtain ⟨e, he, rfl⟩ := Option.map_eq_some_iff.mp h
  have hk : e.1 = k := by simpa using List.find?_some he
  exact hk ▸ List.mem_of_find?_eq_some he

theorem remove_of_get_eq_none (h : get m k = none) : remove m k = m := by
  apply List.filter_eq_self.mpr
  intro e he
  simpa using get_eq_none_iff.mp h e he

/-- A map without some of its keys. -/
theorem get_filter (p : κ → Bool) :
    get (m.filter fun e => p e.1) k = if p k then get m k else none := by
  rw [get, get, List.find?_filter]
  split_ifs with hk
  · refine congrArg (fun q => (m.find? q).map Prod.snd) (funext fun e => ?_)
    by_cases he : e.1 = k
    · simp [he, hk]
    · simp [he]
  · rw [Option.map_eq_none_iff, List.find?_eq_none]
    rintro e - he
    obtain ⟨hp, rfl⟩ : p e.1 = true ∧ e.1 = k := by simpa using he
    exact hk hp

theorem nodup_remove (h : (m.map Prod.fst).Nodup) : ((remove m k).map Prod.fst).Nodup :=
  (List.Sublist.map Prod.fst List.filter_sublist).nodup h

theorem nodup_put (h : (m.map Prod.fst).Nodup) : ((put m k v).map Prod.fst).Nodup := by
  rw [put, List.map_cons, List.nodup_cons]
  refine ⟨?_, nodup_remove h⟩
  intro hk
  obtain ⟨e, he, hek⟩ := List.mem_map.mp hk
  exact (mem_remove.mp he).2 hek

omit [DecidableEq κ] in
theorem eq_of_mem (h : (m.map Prod.fst).Nodup) (hv : (k, v) ∈ m) (hv' : (k, v') ∈ m) : v = v' := by
  have he : (k, v) = (k, v') := List.inj_on_of_nodup_map h hv hv' rfl
  exact congrArg Prod.snd he

/-! ## Maps that are never iterated -/

section Update

variable {f : κ → Option α}

theorem update_some_iff :
    Function.update f k (some v) k' = some v' ↔ k' = k ∧ v = v' ∨ k' ≠ k ∧ f k' = some v' := by
  by_cases hk : k' = k
  · subst hk
    simp
  · simp [hk]

theorem update_none_iff : Function.update f k none k' = some v ↔ k' ≠ k ∧ f k' = some v := by
  by_cases hk : k' = k
  · subst hk
    simp
  · simp [hk]

end Update

end HashMap
