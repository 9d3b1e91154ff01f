/-!
# Dictionaries

Finite maps as lists of pairs in the order of their keys. Looking up a key sees the last `insert`
or `erase` of that key.
-/

namespace Savegame

/-- A finite map; `insert` keeps the keys in ascending order. -/
structure Dictionary (κ ν : Type) where
  entries : List (κ × ν) := []
  deriving Repr

namespace Dictionary

variable {κ ν : Type} [DecidableEq κ]

instance : EmptyCollection (Dictionary κ ν) := ⟨⟨[]⟩⟩

instance : Inhabited (Dictionary κ ν) := ⟨∅⟩

def find? (d : Dictionary κ ν) (key : κ) : Option ν :=
  (d.entries.find? (·.1 = key)).map (·.2)

def contains (d : Dictionary κ ν) (key : κ) : Bool :=
  (d.find? key).isSome

def keys (d : Dictionary κ ν) : List κ :=
  d.entries.map (·.1)

def size (d : Dictionary κ ν) : Nat :=
  d.entries.length

def erase (d : Dictionary κ ν) (key : κ) : Dictionary κ ν :=
  ⟨d.entries.filter (·.1 ≠ key)⟩

section Ordered
variable [LT κ] [DecidableLT κ]

/-- Puts a pair before the first greater key, in the place of a pair with the same key. -/
def insertEntry (key : κ) (value : ν) : List (κ × ν) → List (κ × ν)
  | [] => [(key, value)]
  | (k, v) :: rest =>
    if key < k then (key, value) :: (k, v) :: rest
    else if k = key then (key, value) :: rest
    else (k, v) :: insertEntry key value rest

def insert (d : Dictionary κ ν) (key : κ) (value : ν) : Dictionary κ ν :=
  ⟨insertEntry key value d.entries⟩

/-- Later pairs take the place of earlier ones with the same key. -/
def ofList (pairs : List (κ × ν)) : Dictionary κ ν :=
  pairs.foldl (fun d pair => d.insert pair.1 pair.2) ∅

theorem find?_insert (d : Dictionary κ ν) (key other : κ) (value : ν) :
    (d.insert key value).find? other = if key = other then some value else d.find? other := by
  obtain ⟨entries⟩ := d
  simp only [insert, find?]
  induction entries with
  | nil => by_cases h : key = other <;> simp [insertEntry, h]
  | cons pair rest ih =>
    obtain ⟨k, v⟩ := pair
    simp only [insertEntry]
    split
    · by_cases h : key = other <;> simp [h]
    · split
      · by_cases h : key = other <;> simp_all
      · by_cases hk : k = other
        · have : ¬ key = other := by rintro rfl; contradiction
          simp [hk, this]
        · simpa [hk] using ih

end Ordered

theorem find?_empty (key : κ) : (∅ : Dictionary κ ν).find? key = none := rfl

theorem find?_erase (d : Dictionary κ ν) (key other : κ) :
    (d.erase key).find? other = if key = other then none else d.find? other := by
  obtain ⟨entries⟩ := d
  simp only [erase, find?]
  induction entries with
  | nil => simp
  | cons pair rest ih =>
    obtain ⟨k, v⟩ := pair
    by_cases hk : k = key <;> by_cases hother : k = other <;> by_cases h : key = other <;>
      simp_all

end Dictionary

end Savegame
