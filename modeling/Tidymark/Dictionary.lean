/-! # Dictionaries

Lists of values under keys, in the order of the keys and each key once. -/
namespace Tidymark

abbrev Dictionary (κ β : Type) := List (κ × β)

namespace Dictionary

variable {κ β : Type} [DecidableEq κ]

def get? (key : κ) : List (κ × β) → Option β
  | [] => none
  | (other, v) :: rest => if key = other then some v else get? key rest

def erase (key : κ) (d : List (κ × β)) : List (κ × β) := d.filter (·.1 ≠ key)

def keys (d : List (κ × β)) : List κ := d.map (·.1)

def values (d : List (κ × β)) : List β := d.map (·.2)

variable [LT κ] [DecidableLT κ]

/-- Sets the value of a key. -/
def insert (key : κ) (value : β) : List (κ × β) → List (κ × β)
  | [] => [(key, value)]
  | (other, v) :: rest =>
    if key < other then (key, value) :: (other, v) :: rest
    else if key = other then (key, value) :: rest
    else (other, v) :: insert key value rest

/-- The dictionary of these entries; of entries with one key the last counts. -/
def ofList (entries : List (κ × β)) : List (κ × β) :=
  entries.foldl (fun d (key, value) => insert key value d) []

theorem get?_insert_self (key : κ) (value : β) (d : List (κ × β)) :
    get? key (insert key value d) = some value := by
  induction d with
  | nil => simp [insert, get?]
  | cons e d ih => grind [insert, get?]

theorem get?_insert_of_ne {key other : κ} (h : other ≠ key) (value : β) (d : List (κ × β)) :
    get? other (insert key value d) = get? other d := by
  induction d with
  | nil => simp [insert, get?, h]
  | cons e d ih => grind [insert, get?]

end Dictionary
end Tidymark
