/-! # Records

A record is a row of named values in the order in which the names were first given.  It holds the
variables of a frame, the properties of an object and the fields of an instance.

* `get?` reads a name;
* `set` changes the value of a name in its place, or adds the name at the end;
* `keys` lists the names in order. -/

namespace ScopedScript

/-- Named values in the order of their names' first appearance. -/
abbrev Record (α : Type) := List (String × α)

namespace Record

variable {α : Type}

/-- The value of a name. -/
def get? (r : Record α) (name : String) : Option α := List.lookup name r

/-- Has the name a value? -/
def has (r : Record α) (name : String) : Bool := (r.get? name).isSome

/-- The record with a value given to a name. -/
def set : Record α → String → α → Record α
  | [], name, value => [(name, value)]
  | (k, v) :: r, name, value =>
    if name == k then (k, value) :: r else (k, v) :: set r name value

/-- The names in order. -/
def keys (r : Record α) : List String := r.map Prod.fst

@[simp] theorem get?_nil (name : String) : get? ([] : Record α) name = none := rfl

theorem get?_cons (k : String) (v : α) (r : Record α) (name : String) :
    get? ((k, v) :: r) name = if name = k then some v else get? r name := by
  by_cases h : name = k
  · simp [get?, h]
  · simp [get?, List.lookup_cons, h, beq_eq_false_iff_ne.2 h]

theorem get?_set_self (r : Record α) (name : String) (value : α) :
    (r.set name value).get? name = some value := by
  induction r with
  | nil => simp [set, get?_cons]
  | cons p r ih =>
    obtain ⟨k, v⟩ := p
    by_cases h : name = k <;> simp [set, get?_cons, h, ih]

theorem get?_set_of_ne (r : Record α) {name other : String} (value : α) (h : other ≠ name) :
    (r.set name value).get? other = r.get? other := by
  induction r with
  | nil => simp [set, get?_cons, h]
  | cons p r ih =>
    obtain ⟨k, v⟩ := p
    by_cases hk : name = k
    · subst hk
      simp [set, get?_cons, h]
    · simp [set, get?_cons, hk, ih]

theorem keys_set (r : Record α) (name : String) (value : α) :
    (r.set name value).keys = if name ∈ r.keys then r.keys else r.keys ++ [name] := by
  induction r with
  | nil => simp [set, keys]
  | cons p r ih =>
    obtain ⟨k, v⟩ := p
    by_cases hk : name = k
    · simp [set, keys, hk]
    · simp only [keys] at ih
      by_cases hr : name ∈ List.map Prod.fst r <;> simp_all [set, keys]

end Record

end ScopedScript
