/-!
Lists of entries with a key each, in order of first insertion. Writing a key that is
there replaces its value in place; writing a new key adds an entry at the end. So a list
whose keys are distinct stays so, and its order tells when each key first came.
-/
namespace SearchQuery

abbrev Keyed (α : Type) := List (String × α)

namespace Keyed

variable {α : Type}

def keys (entries : Keyed α) : List String := entries.map (·.1)

def get? (entries : Keyed α) (key : String) : Option α := entries.lookup key

def contains (entries : Keyed α) (key : String) : Bool := (entries.get? key).isSome

def single (key : String) (value : α) : Keyed α := [(key, value)]

/-- Writes a key: in place if it is there, at the end if it is new. -/
def insert : Keyed α → String → α → Keyed α
  | [], key, value => [(key, value)]
  | entry :: rest, key, value =>
    if entry.1 = key then (key, value) :: rest else entry :: insert rest key value

def extend (entries more : Keyed α) : Keyed α :=
  more.foldl (fun acc entry => acc.insert entry.1 entry.2) entries

/-- Entries with repeated keys brought together: a key has its last value at its first
place. -/
def distinct (entries : List (String × α)) : Keyed α := extend [] entries

def orderedInsert (entry : String × α) : Keyed α → Keyed α
  | [] => [entry]
  | head :: rest =>
    if entry.1 < head.1 then entry :: head :: rest else head :: orderedInsert entry rest

/-- The entries in ascending order of their keys, by code points. -/
def sorted (entries : Keyed α) : Keyed α := entries.foldr orderedInsert []

theorem get?_cons (entry : String × α) (rest : Keyed α) (key : String) :
    get? (entry :: rest) key = if entry.1 = key then some entry.2 else rest.get? key := by
  obtain ⟨first, value⟩ := entry
  by_cases h : first = key
  · simp [get?, h]
  · have hkey : (key == first) = false := by simpa using fun e => h e.symm
    simp [get?, List.lookup_cons, h, hkey]

theorem contains_iff_mem_keys (entries : Keyed α) (key : String) :
    entries.contains key = true ↔ key ∈ entries.keys := by
  induction entries with
  | nil => simp [contains, get?, keys]
  | cons entry rest ih =>
    by_cases h : entry.1 = key
    · simp [contains, get?_cons, keys, h]
    · have hkey : ¬ key = entry.1 := fun e => h e.symm
      simpa [contains, get?_cons, keys, h, hkey] using ih

/-- A key that was written has the value that was written. -/
theorem get?_insert_self (entries : Keyed α) (key : String) (value : α) :
    (entries.insert key value).get? key = some value := by
  induction entries with
  | nil => simp [insert, get?]
  | cons entry rest ih =>
    by_cases h : entry.1 = key <;> simp [insert, get?_cons, h, ih]

/-- Writing a key leaves the others alone. -/
theorem get?_insert_of_ne (entries : Keyed α) {key other : String} (value : α)
    (h : other ≠ key) : (entries.insert key value).get? other = entries.get? other := by
  have hkey : ¬ key = other := fun e => h e.symm
  induction entries with
  | nil => simp [insert, get?_cons, hkey]
  | cons entry rest ih =>
    by_cases hentry : entry.1 = key <;> simp [insert, get?_cons, hentry, hkey, ih]

/-- Writing keeps the keys that are there, and a new key comes last. -/
theorem keys_insert (entries : Keyed α) (key : String) (value : α) :
    (entries.insert key value).keys =
      if key ∈ entries.keys then entries.keys else entries.keys ++ [key] := by
  induction entries with
  | nil => simp [insert, keys]
  | cons entry rest ih =>
    by_cases h : entry.1 = key
    · simp [insert, keys, h]
    · have hkey : ¬ key = entry.1 := fun e => h e.symm
      simp only [keys] at ih
      simp only [insert, h, if_false, keys, List.map_cons, List.mem_cons, hkey, false_or, ih]
      split <;> simp_all

/-- Distinct keys stay distinct when a key is written. -/
theorem nodup_keys_insert {entries : Keyed α} (h : entries.keys.Nodup) (key : String)
    (value : α) : (entries.insert key value).keys.Nodup := by
  rw [keys_insert]
  split
  · exact h
  · next hkey =>
    refine List.nodup_append.2 ⟨h, by simp, ?_⟩
    intro a ha b hb hab
    have hb : b = key := by simpa using hb
    exact hkey (by rw [← hb, ← hab]; exact ha)

theorem nodup_keys_extend {entries : Keyed α} (h : entries.keys.Nodup) (more : Keyed α) :
    (entries.extend more).keys.Nodup := by
  induction more generalizing entries with
  | nil => exact h
  | cons entry rest ih => exact ih (nodup_keys_insert h entry.1 entry.2)

/-- Entries brought together have distinct keys. -/
theorem nodup_keys_distinct (entries : List (String × α)) : (distinct entries).keys.Nodup :=
  nodup_keys_extend (by simp [keys]) entries

end Keyed

end SearchQuery
