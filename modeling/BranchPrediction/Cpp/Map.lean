import Mathlib.Algebra.BigOperators.Group.Finset.Basic
import Mathlib.Tactic.Ring

/-!
# `std::map`

`std::map<K, V>` is an ordered map with unique keys, so it is the extensional
tree map of the standard library over `compare`.  What that library lacks is
`operator[]`, which is not a lookup: evaluating `m[k]` on an absent key inserts
a value-initialised entry first.  The three readings a program makes of `m[k]`
are kept apart here:

* `touch` — the map after `m[k]` has been evaluated, whatever is done with it;
* `read` — the value `m[k]` denotes;
* `update` — the map after a compound assignment `m[k] op= x`.

A plain assignment `m[k] = x` is `insert`, and `m.find(k) != m.end()` is
`contains`.
-/

namespace BranchPrediction.Cpp

open Std (ExtTreeMap TransOrd LawfulEqOrd)

/-- `std::map<K, V>`. -/
abbrev Map (κ ν : Type*) [Ord κ] := ExtTreeMap κ ν compare

namespace Map

variable {κ ν : Type*} [Ord κ] [TransOrd κ] [Inhabited ν]

/-- The map after evaluating `m[k]`. -/
def touch (m : Map κ ν) (k : κ) : Map κ ν :=
  if m.contains k then m else m.insert k default

/-- The value `m[k]` denotes. -/
def read (m : Map κ ν) (k : κ) : ν :=
  m[k]?.getD default

/-- The map after `m[k] op= x`, where `f` is `· op x`. -/
def update (m : Map κ ν) (k : κ) (f : ν → ν) : Map κ ν :=
  m.insert k (f (m.read k))

omit [Inhabited ν] in
theorem contains_eq_isSome (m : Map κ ν) (k : κ) : m.contains k = m[k]?.isSome :=
  ExtTreeMap.contains_eq_isSome_getElem?

@[simp] theorem read_of_some {m : Map κ ν} {k : κ} {v : ν} (h : m[k]? = some v) :
    m.read k = v := by
  simp [read, h]

@[simp] theorem read_of_none {m : Map κ ν} {k : κ} (h : m[k]? = none) :
    m.read k = default := by
  simp [read, h]

theorem touch_of_contains {m : Map κ ν} {k : κ} (h : m.contains k) : m.touch k = m :=
  if_pos h

/-- Guarded by `find`, `operator[]` inserts nothing. -/
@[simp] theorem ite_touch (m : Map κ ν) (k : κ) : (if m.contains k then m.touch k else m) = m := by
  split
  · next h => exact touch_of_contains h
  · rfl

/-- Guarded by `find`, `operator[]` reads the entry. -/
theorem ite_read (m : Map κ ν) (k : κ) (v : ν) :
    (if m.contains k then m.read k else v) = m[k]?.getD v := by
  cases h : m[k]? with
  | none => simp [contains_eq_isSome, h]
  | some w => simp [contains_eq_isSome, h]

variable [LawfulEqOrd κ] [DecidableEq κ]

omit [Inhabited ν] in
theorem getElem?_insert_eq (m : Map κ ν) (k a : κ) (v : ν) :
    (m.insert k v)[a]? = if k = a then some v else m[a]? := by
  simp only [ExtTreeMap.getElem?_insert, Std.compare_eq_iff_eq]

theorem getElem?_update (m : Map κ ν) (k a : κ) (f : ν → ν) :
    (m.update k f)[a]? = if k = a then some (f (m.read k)) else m[a]? :=
  getElem?_insert_eq m k a _

omit [Inhabited ν] in
/-- The entries after an insertion that `find` guards. -/
theorem getElem?_ite_insert (m : Map κ ν) (k a : κ) (v : ν) :
    (if m.contains k then m else m.insert k v)[a]? =
      if k = a then some (m[k]?.getD v) else m[a]? := by
  cases h : m[k]? with
  | none => simp [contains_eq_isSome, h, getElem?_insert_eq]
  | some w =>
      simp only [contains_eq_isSome, h, Option.isSome_some, if_pos, Option.getD_some]
      split
      · next hk => rw [← hk, h]
      · rfl

theorem read_ite_insert (m : Map κ ν) (k : κ) (v : ν) :
    (if m.contains k then m else m.insert k v).read k = m[k]?.getD v := by
  rw [read_of_some (v := m[k]?.getD v)]
  rw [getElem?_ite_insert, if_pos rfl]

/-- The entries after a guarded compound assignment to an entry that is present. -/
theorem getElem?_ite_update {m : Map κ ν} {k : κ} {v : ν} (h : m[k]? = some v) (a : κ)
    (p : Prop) [Decidable p] (f : ν → ν) :
    (if p then m.update k f else m)[a]? =
      if k = a then some (if p then f v else v) else m[a]? := by
  by_cases hk : k = a
  · subst hk
    split <;> simp [getElem?_update, h]
  · split <;> simp [getElem?_update, hk]

omit [Inhabited ν] in
/-- A sum over the entries, as a sum over any set of keys that holds theirs. -/
theorem sum_toList {M : Type*} [AddCommMonoid M] (m : Map κ ν) (f : κ → ν → M) {K : Finset κ}
    (hK : ∀ k v, m[k]? = some v → k ∈ K) :
    (m.toList.map fun p => f p.1 p.2).sum = ∑ k ∈ K, (m[k]?).elim 0 (f k) := by
  have hentry : ∀ p ∈ m.toList, f p.1 p.2 = (m[p.1]?).elim 0 (f p.1) := by
    intro p hp
    rw [ExtTreeMap.mem_toList_iff_getElem?_eq_some.mp hp, Option.elim_some]
  have hmem : ∀ k, k ∈ m.keys ↔ ∃ v, m[k]? = some v := by
    intro k
    rw [ExtTreeMap.mem_keys, ExtTreeMap.mem_iff_isSome_getElem?, Option.isSome_iff_exists]
  have hkeys : m.toList.map (fun p => (m[p.1]?).elim 0 (f p.1)) =
      m.keys.map fun k => (m[k]?).elim 0 (f k) := by
    rw [← ExtTreeMap.map_fst_toList_eq_keys, List.map_map]
    rfl
  rw [List.map_congr_left hentry, hkeys, ← List.sum_toFinset _ m.nodup_keys]
  apply Finset.sum_subset
  · intro k hk
    obtain ⟨v, hv⟩ := (hmem k).mp (List.mem_toFinset.mp hk)
    exact hK k v hv
  · intro k _ hk
    rw [List.mem_toFinset, hmem] at hk
    rw [Option.eq_none_iff_forall_ne_some.mpr fun v hv => hk ⟨v, hv⟩, Option.elim_none]

end Map

end BranchPrediction.Cpp
