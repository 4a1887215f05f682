import Mathlib.Data.List.Induction
import SchemaCatalog.OrderedMap

/-!
# SchemaCatalog.Proofs.OrderedMap

What a map looks like after any number of insertions.

`OrderedMap.lastWins` says it in one go: a key stands where it first came, with the value that
came last. `ofList_eq_lastWins` is by induction on the entries from the right, one insertion at
a time; the keys and the values need separate inductions, and `entries_eq` puts the two together,
since a map without repeated keys is its keys with their values.
-/

namespace SchemaCatalog.OrderedMap

variable {α β : Type}

/-! ## Maps are their keys with their values -/

theorem lookup_eq_some_of_mem {key : String} {value : α} {entries : List (String × α)}
    (distinct : (entries.map (·.1)).Nodup) (h : (key, value) ∈ entries) :
    entries.lookup key = some value := by
  induction entries with
  | nil => cases h
  | cons entry rest ih =>
    obtain ⟨k, v⟩ := entry
    rw [List.map_cons, List.nodup_cons] at distinct
    rcases List.mem_cons.1 h with heq | hrest
    · cases heq
      simp
    · have hne : (key == k) = false := by
        rw [beq_eq_false_iff_ne]
        rintro rfl
        exact distinct.1 (List.mem_map.2 ⟨_, hrest, rfl⟩)
      rw [List.lookup_cons, hne]
      exact ih distinct.2 hrest

theorem mem_entries_iff (m : OrderedMap α) {key : String} {value : α} :
    (key, value) ∈ m.entries ↔ m.get? key = some value := by
  constructor
  · exact lookup_eq_some_of_mem m.distinct
  · intro h
    obtain ⟨before, behind, hentries, _⟩ := List.lookup_eq_some_iff.1 h
    rw [hentries]
    simp

theorem contains_iff (m : OrderedMap α) (key : String) : m.contains key = true ↔ key ∈ m.keys := by
  rw [contains, get?, keys, List.lookup_isSome_iff]
  simp

/-- The entries at some keys. -/
def select (get? : String → Option α) (keys : List String) : List (String × α) :=
  keys.filterMap fun key => (get? key).map (key, ·)

theorem entries_eq (m : OrderedMap α) : m.entries = select m.get? m.keys := by
  have h : ∀ entries : List (String × α), (∀ e ∈ entries, m.get? e.1 = some e.2) →
      entries = select m.get? (entries.map (·.1)) := by
    intro entries hall
    induction entries with
    | nil => rfl
    | cons e rest ih =>
      rw [List.map_cons, select, List.filterMap_cons, hall e List.mem_cons_self]
      have hrest := ih fun e' he' => hall e' (List.mem_cons_of_mem _ he')
      exact congrArg (e :: ·) hrest
  exact h m.entries fun e he => m.mem_entries_iff.1 he

theorem ext_entries {m m' : OrderedMap α} (h : m.entries = m'.entries) : m = m' := by
  cases m
  cases m'
  cases h
  rfl

/-! ## First places and last values -/

theorem keys_select (get? : String → Option α) (keys : List String) :
    (select get? keys).map (·.1) = keys.filter fun key => (get? key).isSome := by
  induction keys with
  | nil => rfl
  | cons key rest ih =>
    rw [select, List.filterMap_cons, List.filter_cons]
    cases h : get? key with
    | none => exact ih
    | some value => exact congrArg (key :: ·) ih

theorem ofList_append_singleton (entries : List (String × α)) (key : String) (value : α) :
    ofList (entries ++ [(key, value)]) = (ofList entries).insert key value := by
  rw [ofList, List.foldl_append]
  rfl

theorem keys_ofList (entries : List (String × α)) :
    (ofList entries).keys = (entries.map (·.1)).eraseDups := by
  induction entries using List.reverseRecOn with
  | nil => rfl
  | append_singleton entries entry ih =>
    obtain ⟨key, value⟩ := entry
    rw [ofList_append_singleton, keys_insert, ih, List.map_append, List.eraseDups_append]
    by_cases h : key ∈ entries.map (·.1)
    · have hold : [key].removeAll (entries.map (·.1)) = [] :=
        List.filter_cons_of_neg (by simpa using h)
      rw [if_pos (List.mem_eraseDups.2 h)]
      simp only [List.map_cons, List.map_nil, hold, List.eraseDups_nil, List.append_nil]
    · have hnew : [key].removeAll (entries.map (·.1)) = [key] :=
        List.filter_cons_of_pos (by simpa using h)
      rw [if_neg fun h' => h (List.mem_eraseDups.1 h')]
      simp only [List.map_cons, List.map_nil, hnew]
      rfl

theorem get?_ofList (entries : List (String × α)) (key : String) :
    (ofList entries).get? key = entries.reverse.lookup key := by
  induction entries using List.reverseRecOn with
  | nil => rfl
  | append_singleton entries entry ih =>
    obtain ⟨k, value⟩ := entry
    rw [ofList_append_singleton, List.reverse_append, List.reverse_singleton, List.singleton_append,
      List.lookup_cons]
    by_cases h : key = k
    · subst h
      rw [get?_insert_self]
      simp
    · rw [get?_insert_of_ne _ _ h, ih, beq_eq_false_iff_ne.2 h]

theorem mem_of_mem_ofList {entries : List (String × α)} {entry : String × α}
    (h : entry ∈ (ofList entries).entries) : entry ∈ entries := by
  obtain ⟨key, value⟩ := entry
  rw [mem_entries_iff, get?_ofList] at h
  obtain ⟨before, behind, hentries, _⟩ := List.lookup_eq_some_iff.1 h
  rw [← List.mem_reverse, hentries]
  simp

theorem mem_keys_ofList {entries : List (String × α)} {entry : String × α} (h : entry ∈ entries) :
    entry.1 ∈ (ofList entries).keys := by
  rw [keys_ofList, List.mem_eraseDups]
  exact List.mem_map.2 ⟨entry, h, rfl⟩

/-- Every key stands where it first comes, with the value that comes last. -/
def lastWins (entries : List (String × α)) : OrderedMap α where
  entries := select (fun key => entries.reverse.lookup key) (entries.map (·.1)).eraseDups
  distinct := by
    rw [keys_select, ← keys_ofList]
    exact (ofList entries).distinct.filter _

theorem ofList_eq_lastWins (entries : List (String × α)) : ofList entries = lastWins entries := by
  have h := entries_eq (ofList entries)
  rw [keys_ofList, funext (get?_ofList entries)] at h
  exact ext_entries h

end SchemaCatalog.OrderedMap
