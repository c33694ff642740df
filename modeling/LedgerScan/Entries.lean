/-!
# Finite maps from text

An object, a schema and a set of discriminators are all finite maps whose keys are texts. They are
lists of pairs kept in ascending order of the key, each key once, so two maps with the same
content are the same list and a walk over one meets its keys in a fixed order. The order of texts
is the order of their code points, which is also the order of their UTF-8 bytes.

* `get?` reads, `insert` adds or replaces, `erase` removes;
* `ofList` and `merge` insert from left to right, so of two values for a key the later one stays.
-/

namespace LedgerScan

universe u

/-- A finite map from text, in ascending order of its keys. -/
abbrev Entries (α : Type u) := List (String × α)

namespace Entries

variable {α : Type u}

/-! ## 1. One key at a time -/

/-- The value stored under a key. -/
def get? (key : String) : Entries α → Option α
  | [] => none
  | (k, v) :: rest => if k = key then some v else get? key rest

/-- Whether a key is present. -/
def contains (key : String) (entries : Entries α) : Bool :=
  (get? key entries).isSome

/-- Puts a value under a key, in the key's place in the order; an earlier value is replaced. -/
def insert (key : String) (value : α) : Entries α → Entries α
  | [] => [(key, value)]
  | (k, v) :: rest =>
    if key < k then (key, value) :: (k, v) :: rest
    else if key = k then (key, value) :: rest
    else (k, v) :: insert key value rest

/-- Removes a key and its value. -/
def erase (key : String) (entries : Entries α) : Entries α :=
  entries.filter fun entry => entry.1 ≠ key

/-! ## 2. Many keys -/

/-- Inserts the pairs of `patch` from left to right. -/
def merge (entries : Entries α) (patch : List (String × α)) : Entries α :=
  patch.foldl (fun acc entry => insert entry.1 entry.2 acc) entries

/-- The map that a list of pairs stands for: the last pair with a key decides its value. -/
def ofList (pairs : List (String × α)) : Entries α :=
  merge [] pairs

/-- The keys in ascending order. -/
def keys (entries : Entries α) : List String :=
  entries.map Prod.fst

/-! ## 3. What was written is what is read -/

@[simp] theorem get?_nil (key : String) : get? key ([] : Entries α) = none := rfl

@[simp] theorem get?_insert_self (key : String) (value : α) (entries : Entries α) :
    get? key (insert key value entries) = some value := by
  induction entries with
  | nil => simp [insert, get?]
  | cons entry rest ih =>
    obtain ⟨k, v⟩ := entry
    unfold insert
    split
    · simp [get?]
    · split
      · simp [get?]
      · rename_i hne
        simp [get?, Ne.symm hne, ih]

theorem get?_insert_of_ne {key other : String} (h : key ≠ other) (value : α)
    (entries : Entries α) : get? other (insert key value entries) = get? other entries := by
  induction entries with
  | nil => simp [insert, get?, h]
  | cons entry rest ih =>
    obtain ⟨k, v⟩ := entry
    unfold insert
    split
    · simp [get?, h]
    · split
      · rename_i heq
        subst heq
        simp [get?, h]
      · simp only [get?, ih]

/-- Reading after a write: the written key has the written value, every other key its old one. -/
theorem get?_insert (key other : String) (value : α) (entries : Entries α) :
    get? other (insert key value entries)
      = if key = other then some value else get? other entries := by
  by_cases h : key = other
  · subst h
    simp
  · simp [h, get?_insert_of_ne h]

end Entries

end LedgerScan
