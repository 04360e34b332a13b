import BranchPrediction.Json.Parser

/-!
# Numbers of a value

A JSON text denotes exact numbers; a reader that keeps them as `double`s rounds
each of them.  `mapNum` is a function of the numbers of a value.
-/

namespace BranchPrediction.Json

namespace Value

mutual

/-- The value with its numbers changed. -/
def mapNum (f : ℚ → ℚ) : Value → Value
  | null => null
  | bool b => bool b
  | num q => num (f q)
  | str s => str s
  | arr items => arr (mapItems f items)
  | obj members => obj (mapMembers f members)

/-- The items of an array, with their numbers changed. -/
def mapItems (f : ℚ → ℚ) : List Value → List Value
  | [] => []
  | v :: items => v.mapNum f :: mapItems f items

/-- The members of an object, with their numbers changed. -/
def mapMembers (f : ℚ → ℚ) : List (String × Value) → List (String × Value)
  | [] => []
  | (key, v) :: members => (key, v.mapNum f) :: mapMembers f members

end

section

variable (f : ℚ → ℚ)

theorem mapItems_eq (items : List Value) : mapItems f items = items.map (mapNum f) := by
  induction items with
  | nil => rfl
  | cons v items ih => rw [mapItems, ih, List.map_cons]

theorem mapMembers_eq (members : List (String × Value)) :
    mapMembers f members = members.map fun m => (m.1, m.2.mapNum f) := by
  induction members with
  | nil => rfl
  | cons m members ih => rw [mapMembers, ih, List.map_cons]

@[simp] theorem mapNum_num (q : ℚ) : (num q).mapNum f = num (f q) := by
  rw [mapNum]

@[simp] theorem mapNum_str (s : String) : (str s).mapNum f = str s := by
  rw [mapNum]

@[simp] theorem mapNum_arr (items : List Value) :
    (arr items).mapNum f = arr (items.map (mapNum f)) := by
  rw [mapNum, mapItems_eq]

@[simp] theorem mapNum_obj (members : List (String × Value)) :
    (obj members).mapNum f = obj (members.map fun m => (m.1, m.2.mapNum f)) := by
  rw [mapNum, mapMembers_eq]

end

end Value

end BranchPrediction.Json
