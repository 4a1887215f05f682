/-!
# SchemaCatalog.OrderedMap

Maps from names to values that remember the order in which their keys first came.

Writing to a key that is already there changes its value and leaves its place alone, so the
keys of `ofList` stand in order of first occurrence while the values are those written last.
-/

namespace SchemaCatalog

variable {α : Type}

/-- Entries in the order in which their keys were first written. -/
structure OrderedMap (α : Type) where
  entries : List (String × α)
  /-- No key comes twice. -/
  distinct : (entries.map (·.1)).Nodup
deriving DecidableEq, Repr

namespace OrderedMap

/-- Replace the value of `key` where it stands, or add the entry at the end. -/
def insertEntry (key : String) (value : α) : List (String × α) → List (String × α)
  | [] => [(key, value)]
  | entry :: rest =>
    if entry.1 = key then (key, value) :: rest else entry :: insertEntry key value rest

/-- An insertion keeps the keys as they are when the key is there, and adds it last when not. -/
theorem keys_insertEntry (key : String) (value : α) (entries : List (String × α)) :
    (insertEntry key value entries).map (·.1) =
      if key ∈ entries.map (·.1) then entries.map (·.1) else entries.map (·.1) ++ [key] := by
  induction entries with
  | nil => simp [insertEntry]
  | cons entry rest ih =>
    by_cases h : entry.1 = key
    · simp [insertEntry, h]
    · have h' : key ≠ entry.1 := fun e => h e.symm
      by_cases hm : key ∈ rest.map (·.1)
      · simp only [insertEntry, h, if_false, List.map_cons, ih, hm, if_true, List.mem_cons, or_true]
      · simp only [insertEntry, h, if_false, List.map_cons, ih, hm, List.mem_cons, h', or_self,
          List.cons_append]

theorem nodup_insertEntry (key : String) (value : α) {entries : List (String × α)}
    (h : (entries.map (·.1)).Nodup) : ((insertEntry key value entries).map (·.1)).Nodup := by
  rw [keys_insertEntry]
  split
  · exact h
  · rename_i hnew
    refine List.nodup_append.2 ⟨h, by simp, ?_⟩
    intro a ha b hb
    rw [List.mem_singleton] at hb
    subst hb
    exact fun e => hnew (e ▸ ha)

def empty : OrderedMap α := ⟨[], List.nodup_nil⟩

def insert (m : OrderedMap α) (key : String) (value : α) : OrderedMap α :=
  ⟨insertEntry key value m.entries, nodup_insertEntry key value m.distinct⟩

/-- Write the entries one after the other, from left to right. -/
def ofList (entries : List (String × α)) : OrderedMap α :=
  entries.foldl (fun m entry => m.insert entry.1 entry.2) empty

def get? (m : OrderedMap α) (key : String) : Option α := m.entries.lookup key

def contains (m : OrderedMap α) (key : String) : Bool := (m.get? key).isSome

def keys (m : OrderedMap α) : List String := m.entries.map (·.1)

def values (m : OrderedMap α) : List α := m.entries.map (·.2)

def size (m : OrderedMap α) : Nat := m.entries.length

/-! ## What an insertion does to look-ups and to the keys -/

theorem lookup_insertEntry_self (key : String) (value : α) (entries : List (String × α)) :
    (insertEntry key value entries).lookup key = some value := by
  induction entries with
  | nil => simp [insertEntry]
  | cons entry rest ih =>
    obtain ⟨k, v⟩ := entry
    by_cases h : k = key
    · simp [insertEntry, h]
    · have h' : (key == k) = false := by simpa using fun e => h e.symm
      simp [insertEntry, h, List.lookup_cons, h', ih]

theorem lookup_insertEntry_of_ne {key other : String} (value : α) (hne : other ≠ key)
    (entries : List (String × α)) :
    (insertEntry key value entries).lookup other = entries.lookup other := by
  have h₀ : (other == key) = false := by simpa using hne
  induction entries with
  | nil => simp [insertEntry, List.lookup_cons, h₀]
  | cons entry rest ih =>
    obtain ⟨k, v⟩ := entry
    by_cases h : k = key
    · subst h
      simp [insertEntry, List.lookup_cons, h₀]
    · simp [insertEntry, h, List.lookup_cons, ih]

theorem get?_insert_self (m : OrderedMap α) (key : String) (value : α) :
    (m.insert key value).get? key = some value :=
  lookup_insertEntry_self key value m.entries

theorem get?_insert_of_ne (m : OrderedMap α) {key other : String} (value : α)
    (hne : other ≠ key) : (m.insert key value).get? other = m.get? other :=
  lookup_insertEntry_of_ne value hne m.entries

theorem keys_insert (m : OrderedMap α) (key : String) (value : α) :
    (m.insert key value).keys = if key ∈ m.keys then m.keys else m.keys ++ [key] :=
  keys_insertEntry key value m.entries

end OrderedMap

end SchemaCatalog
