/-!
Tables: at most one value under each key, in the order in which the keys came. The statements say
what `set` does to `get?`.
-/

namespace EventMachines

structure Table (K V : Type) where
  entries : List (K × V)

namespace Table

variable {K V : Type} [DecidableEq K]

def empty : Table K V := ⟨[]⟩

def find (key : K) : List (K × V) → Option V
  | [] => none
  | (k, v) :: rest => if k = key then some v else find key rest

def put (key : K) (value : V) : List (K × V) → List (K × V)
  | [] => [(key, value)]
  | (k, v) :: rest => if k = key then (k, value) :: rest else (k, v) :: put key value rest

def get? (t : Table K V) (key : K) : Option V := find key t.entries

/-- Replaces the value under the key, or adds the key. -/
def set (t : Table K V) (key : K) (value : V) : Table K V := ⟨put key value t.entries⟩

theorem find_put_self (key : K) (value : V) (entries : List (K × V)) :
    find key (put key value entries) = some value := by
  induction entries with
  | nil => simp [put, find]
  | cons entry rest ih => by_cases h : entry.1 = key <;> simp [put, find, h, ih]

theorem find_put_ne {key other : K} (hne : key ≠ other) (value : V) (entries : List (K × V)) :
    find other (put key value entries) = find other entries := by
  induction entries with
  | nil => simp [put, find, hne]
  | cons entry rest ih =>
    by_cases h : entry.1 = key
    · subst h
      simp [put, find, hne]
    · simp [put, find, h, ih]

@[simp] theorem get?_set_self (t : Table K V) (key : K) (value : V) :
    (t.set key value).get? key = some value :=
  find_put_self key value t.entries

theorem get?_set_ne (t : Table K V) {key other : K} (hne : key ≠ other) (value : V) :
    (t.set key value).get? other = t.get? other :=
  find_put_ne hne value t.entries

theorem get?_set (t : Table K V) (key other : K) (value : V) :
    (t.set key value).get? other = if key = other then some value else t.get? other := by
  by_cases h : key = other
  · subst h
    simp
  · simp [h, get?_set_ne t h value]

end Table

end EventMachines
