import SchemaCatalog.FileTree

/-!
# SchemaCatalog.Proofs.FileTree

What a file that is written changes, and what it leaves alone.

A file is written where there is none or over another file, never over a directory. So every
directory stays, and a path that leads somewhere leads there afterwards as well (`walk_set`): the
induction is on the names of the path, and each name needs a directory to start from. Only a path
that leads to the place of the file finds anything new, and it finds the text that was written
(`readText_set_target`). Why a path leads nowhere can change, from nothing there to no directory
there, so the statements are about success.

Other contents in the place of a file change less: only what is read there. Every path leads where
it led, and where none does, the cause is the same (`walk_replace`), so these are equations.
-/

namespace SchemaCatalog

/-! ## Computations that can fail -/

section Except

variable {α β ε : Type}

@[simp] theorem bind_eq_ok {x : Except ε α} {f : α → Except ε β} {b : β} :
    (x >>= f) = .ok b ↔ ∃ a, x = .ok a ∧ f a = .ok b := by
  cases x <;> simp [bind, Except.bind]

@[simp] theorem pure_eq_ok {a b : α} : (pure a : Except ε α) = .ok b ↔ a = b := by
  simp [pure, Except.pure]

theorem mapError_eq_ok {ε' : Type} {x : Except ε α} {f : ε → ε'} {a : α} :
    x.mapError f = .ok a ↔ x = .ok a := by
  cases x with
  | error e => exact ⟨nofun, nofun⟩
  | ok b =>
    constructor
    · rintro ⟨⟩
      rfl
    · rintro ⟨⟩
      rfl

@[simp] theorem throw_ne_ok {e : ε} {a : α} : (throw e : Except ε α) ≠ .ok a := by
  simp [throw, throwThe, MonadExceptOf.throw]

end Except

namespace FileTree

variable {t : FileTree} {cwd spot : Location} {contents : ByteArray} {p : Path}

/-! ## Entries -/

theorem lookup_setEntry_self (location : Location) (entry : Entry)
    (entries : List (Location × Entry)) :
    (setEntry location entry entries).lookup location = some entry := by
  induction entries with
  | nil => simp [setEntry]
  | cons old rest ih =>
    obtain ⟨place, found⟩ := old
    by_cases h : place = location
    · simp [setEntry, h]
    · have h' : (location == place) = false := beq_eq_false_iff_ne.2 fun e => h e.symm
      simp [setEntry, h, List.lookup_cons, h', ih]

theorem lookup_setEntry_of_ne {location other : Location} (entry : Entry) (hne : other ≠ location)
    (entries : List (Location × Entry)) :
    (setEntry location entry entries).lookup other = entries.lookup other := by
  have h₀ : (other == location) = false := beq_eq_false_iff_ne.2 hne
  induction entries with
  | nil => simp [setEntry, List.lookup_cons, h₀]
  | cons old rest ih =>
    obtain ⟨place, found⟩ := old
    by_cases h : place = location
    · subst h
      simp [setEntry, List.lookup_cons, h₀]
    · simp [setEntry, h, List.lookup_cons, ih]

theorem entry?_nil (t : FileTree) : t.entry? [] = some .directory := rfl

theorem entry?_set_self (h : spot ≠ []) (entry : Entry) :
    entry? (t.set spot entry) spot = some entry := by
  cases spot with
  | nil => exact absurd rfl h
  | cons name rest => exact lookup_setEntry_self _ entry t.entries

theorem entry?_set_of_ne {other : Location} (h : other ≠ spot) (entry : Entry) :
    entry? (t.set spot entry) other = t.entry? other := by
  cases other with
  | nil => rw [entry?_nil, entry?_nil]
  | cons name rest => exact lookup_setEntry_of_ne entry h t.entries

/-- No directory stands there, so a file may; the root is a directory. -/
def Vacant (t : FileTree) (location : Location) : Prop := t.entry? location ≠ some .directory

theorem Vacant.ne_nil (h : t.Vacant spot) : spot ≠ [] := by
  rintro rfl
  exact h (entry?_nil t)

theorem directory_set (vacant : t.Vacant spot) (location : Location) :
    entry? (t.set spot (.file contents)) location = some .directory ↔
      t.entry? location = some .directory := by
  by_cases h : location = spot
  · subst h
    rw [entry?_set_self vacant.ne_nil]
    constructor
    · intro e
      cases e
    · exact fun e => absurd e vacant
  · rw [entry?_set_of_ne h]

/-! ## Following paths -/

/-- Where one name leads from a directory. -/
def next (location : Location) (name : String) : Location :=
  if name = "" ∨ name = "." then location
  else if name = ".." then location.dropLast
  else location ++ [name]

theorem walk_cons_eq_ok {location goal : Location} {name : String} {rest : List String} :
    t.walk location (name :: rest) = .ok goal ↔
      t.entry? location = some .directory ∧ t.walk (next location name) rest = .ok goal := by
  rw [walk]
  cases h : t.entry? location with
  | none => simp
  | some entry =>
    cases entry with
    | file contents => simp
    | directory =>
      simp only [next, true_and]
      by_cases hstay : name = "" ∨ name = "."
      · rw [if_pos hstay, if_pos hstay]
      · rw [if_neg hstay, if_neg hstay]
        by_cases hup : name = ".." <;> simp [hup]

theorem walk_append_eq_ok {location goal : Location} {names rest : List String} :
    t.walk location (names ++ rest) = .ok goal ↔
      ∃ stop, t.walk location names = .ok stop ∧ t.walk stop rest = .ok goal := by
  induction names generalizing location with
  | nil => simp [walk]
  | cons name names ih =>
    rw [List.cons_append, walk_cons_eq_ok, ih]
    simp only [walk_cons_eq_ok]
    constructor
    · rintro ⟨hdirectory, stop, hstop, hgoal⟩
      exact ⟨stop, ⟨hdirectory, hstop⟩, hgoal⟩
    · rintro ⟨stop, ⟨hdirectory, hstop⟩, hgoal⟩
      exact ⟨hdirectory, stop, hstop, hgoal⟩

/-- Only directories are asked for on the way. -/
theorem walk_of_directories {t' : FileTree} (same : ∀ location,
      t'.entry? location = some .directory ↔ t.entry? location = some .directory)
    {location goal : Location} {names : List String} :
    t'.walk location names = .ok goal ↔ t.walk location names = .ok goal := by
  induction names generalizing location with
  | nil => rw [walk, walk]
  | cons name rest ih => rw [walk_cons_eq_ok, walk_cons_eq_ok, same, ih]

theorem walk_set (vacant : t.Vacant spot) {location goal : Location} {names : List String} :
    (t.set spot (.file contents)).walk location names = .ok goal ↔
      t.walk location names = .ok goal :=
  walk_of_directories (directory_set vacant)

/-- A path leads to a location, whether anything stands there or not. -/
def LeadsTo (t : FileTree) (cwd : Location) (p : Path) (location : Location) : Prop :=
  t.walk (base cwd p) (names p) = .ok location

instance (location : Location) : Decidable (t.LeadsTo cwd p location) :=
  match h : t.walk (base cwd p) (names p) with
  | .ok stop => decidable_of_iff (stop = location) (by rw [LeadsTo, h, Except.ok.injEq])
  | .error _ => isFalse (by rw [LeadsTo, h]; exact fun e => by cases e)

theorem resolve_eq_ok {location : Location} {entry : Entry} :
    t.resolve cwd p = .ok (location, entry) ↔
      p.text ≠ "" ∧ t.LeadsTo cwd p location ∧ t.entry? location = some entry := by
  rw [resolve, LeadsTo]
  by_cases hempty : p.text = ""
  · simp [hempty]
  · simp only [hempty, if_false, bind_eq_ok, ne_eq, not_false_eq_true, true_and]
    constructor
    · rintro ⟨stop, hstop, hentry⟩
      cases h : t.entry? stop with
      | none => simp [h] at hentry
      | some found =>
        simp only [h, pure_eq_ok, Prod.mk.injEq] at hentry
        obtain ⟨rfl, rfl⟩ := hentry
        exact ⟨hstop, h⟩
    · rintro ⟨hstop, hentry⟩
      exact ⟨location, hstop, by simp [hentry]⟩

theorem resolve_set (vacant : t.Vacant spot) (away : ¬ t.LeadsTo cwd p spot) {location : Location}
    {entry : Entry} : (t.set spot (.file contents)).resolve cwd p = .ok (location, entry) ↔
      t.resolve cwd p = .ok (location, entry) := by
  rw [resolve_eq_ok, resolve_eq_ok, LeadsTo, walk_set vacant]
  constructor
  · rintro ⟨hpath, hlead, hentry⟩
    have hne : location ≠ spot := fun e => away (e ▸ hlead)
    rw [entry?_set_of_ne hne] at hentry
    exact ⟨hpath, hlead, hentry⟩
  · rintro ⟨hpath, hlead, hentry⟩
    have hne : location ≠ spot := fun e => away (e ▸ hlead)
    exact ⟨hpath, hlead, by rw [entry?_set_of_ne hne, hentry]⟩

/-! ## Reading -/

theorem isFile_iff : t.isFile cwd p = true ↔
    ∃ location contents, t.resolve cwd p = .ok (location, .file contents) := by
  rw [isFile]
  split
  · rename_i location contents h
    simp [h]
  · rename_i hno
    simp only [Bool.false_eq_true, false_iff, not_exists]
    exact fun location contents h => hno location contents h

theorem read_eq_ok {c : ByteArray} :
    t.read cwd p = .ok c ↔ ∃ location, t.resolve cwd p = .ok (location, .file c) := by
  rw [read, bind_eq_ok]
  constructor
  · rintro ⟨⟨location, entry⟩, hresolve, hentry⟩
    cases entry with
    | file contents =>
      simp only [pure_eq_ok] at hentry
      subst hentry
      exact ⟨location, hresolve⟩
    | directory => simp at hentry
  · rintro ⟨location, hresolve⟩
    exact ⟨_, hresolve, rfl⟩

theorem readText_eq_ok {text : String} :
    t.readText cwd p = .ok text ↔
      ∃ c, t.read cwd p = .ok c ∧ String.fromUTF8? c = some text := by
  rw [readText, bind_eq_ok]
  refine exists_congr fun c => and_congr_right fun _ => ?_
  cases String.fromUTF8? c with
  | none => simp
  | some found => simp

/-- No file is read by the empty path. -/
theorem readText_of_empty (h : p.text = "") : t.readText cwd p = .error .notFound := by
  rw [readText, read, resolve, if_pos h]
  rfl

theorem isFile_set (vacant : t.Vacant spot) (away : ¬ t.LeadsTo cwd p spot) :
    (t.set spot (.file contents)).isFile cwd p = t.isFile cwd p := by
  rw [Bool.eq_iff_iff, isFile_iff, isFile_iff]
  simp only [resolve_set vacant away]

theorem readText_set (vacant : t.Vacant spot) (away : ¬ t.LeadsTo cwd p spot) {text : String} :
    (t.set spot (.file contents)).readText cwd p = .ok text ↔ t.readText cwd p = .ok text := by
  simp only [readText_eq_ok, read_eq_ok, resolve_set vacant away]

/-! ## Writing -/

theorem eq_append_of_dropWhile {names above : List String} {last : String}
    (hclosed : names.getLast? ≠ some "")
    (h : names.reverse.dropWhile (· = "") = last :: above) : names = above.reverse ++ [last] := by
  -- The last name is none of those that are dropped, so nothing is dropped.
  have hreverse : names.reverse = last :: above := by
    rw [← h]
    cases hcases : names.reverse with
    | nil => rfl
    | cons first rest =>
      have hfirst : first ≠ "" := by
        rintro rfl
        exact hclosed (by rw [List.getLast?_eq_head?_reverse, hcases, List.head?_cons])
      rw [List.dropWhile_cons_of_neg (by simpa using hfirst)]
  rw [← List.reverse_reverse names, hreverse, List.reverse_cons]

/-- A file can be written at a location to which its path leads, and where no directory stands. -/
theorem of_target (h : t.target cwd p = .ok spot) :
    p.text ≠ "" ∧ t.Vacant spot ∧ t.LeadsTo cwd p spot := by
  rw [target] at h
  by_cases hempty : p.text = ""
  · simp [hempty] at h
  simp only [hempty, if_false] at h
  cases hnames : (names p).reverse.dropWhile (· = "") with
  | nil => simp [hnames] at h
  | cons last above =>
    simp only [hnames, bind_eq_ok] at h
    obtain ⟨directory, hwalk, h⟩ := h
    cases hentry : t.entry? directory with
    | none => simp [hentry] at h
    | some entry =>
      cases entry with
      | file contents => simp [hentry] at h
      | directory =>
        simp only [hentry] at h
        by_cases hbad : (names p).getLast? = some "" ∨ last = "." ∨ last = ".."
        · simp [hbad] at h
        rw [if_neg hbad] at h
        obtain ⟨hclosed, hdots⟩ := not_or.1 hbad
        obtain ⟨hdot, hdotdot⟩ := not_or.1 hdots
        -- The whole path is the one to the directory and then the last name, which goes down.
        have happend := eq_append_of_dropWhile hclosed hnames
        have hlast : last ≠ "" := by
          rintro rfl
          exact hclosed (by simp [happend])
        have hlead : t.LeadsTo cwd p (directory ++ [last]) := by
          rw [LeadsTo, happend, walk_append_eq_ok]
          refine ⟨directory, hwalk, walk_cons_eq_ok.2 ⟨hentry, ?_⟩⟩
          simp [next, hlast, hdot, hdotdot, walk]
        have hvacant : t.Vacant (directory ++ [last]) ∧ directory ++ [last] = spot := by
          split at h
          · simp at h
          · rename_i hno
            exact ⟨hno, by simpa using h⟩
        obtain ⟨hvacant, rfl⟩ := hvacant
        exact ⟨hempty, hvacant, hlead⟩

theorem fromUTF8?_toUTF8 (text : String) : String.fromUTF8? text.toUTF8 = some text := by
  rw [String.fromUTF8?]
  exact dif_pos text.isValidUTF8

theorem readText_of_file {text : String} (there : t.entry? spot = some (.file text.toUTF8))
    (hpath : p.text ≠ "") (hlead : t.LeadsTo cwd p spot) : t.readText cwd p = .ok text :=
  readText_eq_ok.2 ⟨_, read_eq_ok.2 ⟨spot, resolve_eq_ok.2 ⟨hpath, hlead, there⟩⟩,
    fromUTF8?_toUTF8 text⟩

/-- What is written where a path puts a file is read there. -/
theorem readText_set_target {text : String} (h : t.target cwd p = .ok spot) :
    (t.set spot (.file text.toUTF8)).readText cwd p = .ok text := by
  obtain ⟨hpath, vacant, hlead⟩ := of_target h
  exact readText_of_file (entry?_set_self vacant.ne_nil _) hpath ((walk_set vacant).2 hlead)

/-! ## Other contents in the place of a file -/

section Replaced

variable {old : ByteArray} (there : t.entry? spot = some (.file old))
include there

theorem ne_nil_of_file : spot ≠ [] := by
  rintro rfl
  rw [entry?_nil] at there
  cases there

/-- Every path is followed as before, and if it cannot be followed, the cause is the same. -/
theorem walk_replace (location : Location) (names : List String) :
    (t.set spot (.file contents)).walk location names = t.walk location names := by
  induction names generalizing location with
  | nil => rw [walk, walk]
  | cons name rest ih =>
    rw [walk, walk]
    by_cases h : location = spot
    · subst h
      rw [entry?_set_self (ne_nil_of_file there), there]
    · rw [entry?_set_of_ne h]
      simp only [ih]

theorem resolve_replace (away : ¬ t.LeadsTo cwd p spot) :
    (t.set spot (.file contents)).resolve cwd p = t.resolve cwd p := by
  rw [resolve, resolve, walk_replace there]
  cases hwalk : t.walk (base cwd p) (names p) with
  | error cause => rfl
  | ok location =>
    have hne : location ≠ spot := by
      rintro rfl
      exact away hwalk
    simp only [bind, Except.bind, entry?_set_of_ne hne]

theorem readText_replace (away : ¬ t.LeadsTo cwd p spot) :
    (t.set spot (.file contents)).readText cwd p = t.readText cwd p := by
  rw [readText, readText, read, read, resolve_replace there away]

theorem isFile_replace (cwd : Location) (p : Path) :
    (t.set spot (.file contents)).isFile cwd p = t.isFile cwd p := by
  by_cases hlead : t.LeadsTo cwd p spot
  · -- There was a file, and there is one.
    have hself := entry?_set_self (t := t) (ne_nil_of_file there) (.file contents)
    rw [Bool.eq_iff_iff, isFile_iff, isFile_iff]
    simp only [resolve_eq_ok, LeadsTo, walk_replace there]
    constructor
    · rintro ⟨location, found, hpath, _, _⟩
      exact ⟨spot, old, hpath, hlead, there⟩
    · rintro ⟨location, found, hpath, _, _⟩
      exact ⟨spot, contents, hpath, hlead, hself⟩
  · rw [isFile, isFile, resolve_replace there hlead]

/-- Files can be written in the same places. -/
theorem target_replace (cwd : Location) (p : Path) :
    (t.set spot (.file contents)).target cwd p = t.target cwd p := by
  have hself := entry?_set_self (t := t) (ne_nil_of_file there) (.file contents)
  rw [target, target]
  simp only [walk_replace there]
  by_cases hempty : p.text = ""
  · simp only [hempty, if_true]
    rfl
  simp only [hempty, if_false]
  cases (names p).reverse.dropWhile (· = "") with
  | nil => rfl
  | cons last above =>
    simp only
    cases t.walk (base cwd p) above.reverse with
    | error cause => rfl
    | ok directory =>
      simp only [bind, Except.bind]
      by_cases hdirectory : directory = spot
      · subst hdirectory
        simp only [hself, there]
      · rw [entry?_set_of_ne hdirectory]
        by_cases hlocation : directory ++ [last] = spot
        · simp only [hlocation, hself, there]
        · simp only [entry?_set_of_ne hlocation]

end Replaced

end FileTree

end SchemaCatalog
