import SchemaCatalog.Proofs.Classification.Prefixes
import SchemaCatalog.Proofs.Sdl.ClashText

/-!
# SchemaCatalog.Proofs.Classification.ScalarClashes

Which types that are named like a scalar are reported.

The scan for collisions goes over the keys of the map, and scalars keep their names. So it reports
the keys that are names of scalars (`scalarCollision_mem_classify`), and of a type whose name is
declared as a scalar too it sees no more than the key: the clash is reported when the key is the
name of a scalar again.

For which namings that is always so hangs on names alone, because every name can clash
(`Sdl.parse_clashText`): they keep every name or make it one of the scalars that every schema has
(`Naming.reportsClashes_iff`). Of the prefixes only the empty one does.
-/

namespace SchemaCatalog

/-! ## Clashes -/

namespace Sdl.Document

/-- The names of the scalars that are declared. -/
def scalarNames (d : Document) : List String := d.scalars.filterMap (·.name)

/-- A name of an object type or of a union is declared as a scalar as well. -/
def Clashes (d : Document) (raw : String) : Prop :=
  raw ∈ d.objectNames .identity ++ d.unionNames .identity ∧ raw ∈ d.scalarNames

theorem mem_typeNames {naming : Naming} {d : Document} {raw : String}
    (h : raw ∈ d.objectNames .identity ++ d.unionNames .identity) :
    naming raw ∈ d.objectNames naming ++ d.unionNames naming := by
  rw [objectNames_eq_map naming, unionNames_eq_map naming, ← List.map_append]
  exact List.mem_map_of_mem h

end Sdl.Document

/-- It is reported that the type with this name has the key of a scalar. -/
def Classifier.Reports (c : Classifier) (config : Config) (sdl raw : String) : Prop :=
  .scalarCollision (c.naming raw) ∈ (c.classify sdl config).events

/-- With this naming every clash of every accepted text is reported. -/
def Naming.ReportsClashes (naming : Naming) : Prop :=
  ∀ examples config sdl raw, (Sdl.parse sdl).2 = [] → (Sdl.parse sdl).1.Clashes raw →
    Classifier.Reports ⟨naming, examples⟩ config sdl raw

/-! ## What is reported -/

theorem Logged.mem_warnings {α : Type} {m : Logged α} {event : Event} (h : event.level = .warn) :
    event ∈ m.warnings ↔ event ∈ m.events := by
  simp [warnings, h]

section Document

variable {naming : Naming} {d : Sdl.Document} {m : TypeMap}

theorem mem_collisions {k : String} : .scalarCollision k ∈ m.collisions ↔
    (k ∈ m.objects.keys ∨ k ∈ m.unions.keys) ∧ k ∈ m.scalars := by
  simp [TypeMap.collisions, or_and_right]

theorem scalarCollision_mem_warningsAbout {k : String} :
    .scalarCollision k ∈ warningsAbout naming d m ↔
      (k ∈ m.objects.keys ∨ k ∈ m.unions.keys) ∧ k ∈ m.scalars := by
  rw [← mem_collisions]
  simp [warningsAbout]

theorem Sdl.Document.mem_keys_or (h : d.typeMap? naming = some m) (k : String) :
    k ∈ m.objects.keys ∨ k ∈ m.unions.keys ↔ k ∈ d.objectNames naming ++ d.unionNames naming := by
  obtain ⟨objects, unions, scalars, hobjects, hunions, _, rfl⟩ := of_typeMap? h
  rw [List.mem_append, mem_keys_ofList_iff (objectNames_eq hobjects),
    mem_keys_ofList_iff (unionNames_eq hunions)]

theorem Sdl.Document.scalars_eq (h : d.typeMap? naming = some m) :
    m.scalars = builtInScalars ++ d.scalarNames := by
  obtain ⟨objects, unions, scalars, _, _, hscalars, rfl⟩ := of_typeMap? h
  exact (classifyScalars_eq hscalars).symm

end Document

/-- A collision is reported under the keys of types that are names of scalars, and whenever the
generator of examples reports one. -/
theorem scalarCollision_mem_classify (c : Classifier) (config : Config) {sdl : String}
    (accepted : (Sdl.parse sdl).2 = []) {m : TypeMap}
    (hm : (Sdl.parse sdl).1.typeMap? c.naming = some m) (k : String) :
    .scalarCollision k ∈ (c.classify sdl config).events ↔
      (k ∈ (Sdl.parse sdl).1.objectNames c.naming ++ (Sdl.parse sdl).1.unionNames c.naming ∧
        k ∈ builtInScalars ++ (Sdl.parse sdl).1.scalarNames) ∨
      .scalarCollision k ∈ (c.examples (Sdl.parse sdl).1 config m).events := by
  have hclassify : (c.classify sdl config).warnings =
      warningsAbout c.naming (Sdl.parse sdl).1 m ++
        (c.examples (Sdl.parse sdl).1 config m).warnings := by
    rw [Classifier.classify, parseSchema_of_clean accepted,
      Logged.warnings_andThen (Logged.value_pure _),
      Logged.warnings_andThen (value_classifyDocument hm), warnings_classifyDocument hm,
      Logged.warnings_bind, warnings_exampleValues]
    simp
  rw [← Logged.mem_warnings rfl, hclassify, List.mem_append, Logged.mem_warnings rfl,
    scalarCollision_mem_warningsAbout, Sdl.Document.mem_keys_or hm, Sdl.Document.scalars_eq hm]

/-! ## Namings -/

namespace Naming

theorem ReportsClashes.keeps {naming : Naming} (h : naming.ReportsClashes) {raw : String}
    (hraw : Sdl.isName raw.toList = true) : naming raw = raw ∨ naming raw ∈ builtInScalars := by
  have hparse := Sdl.parse_clashText hraw
  have accepted : (Sdl.parse (Sdl.clashText raw)).2 = [] := by rw [hparse]
  have hclash : (Sdl.parse (Sdl.clashText raw)).1.Clashes raw := by
    rw [hparse]
    exact ⟨List.mem_singleton.2 rfl, List.mem_singleton.2 rfl⟩
  obtain ⟨m, hm⟩ := (Sdl.complete_of_clean accepted).typeMap? naming
  have hreports := h .none ⟨"p", "d", "a", none, none, none, none⟩ _ raw accepted hclash
  rcases (scalarCollision_mem_classify ⟨naming, .none⟩ _ accepted hm (naming raw)).1 hreports with
    ⟨_, hscalar⟩ | hexample
  · rw [hparse] at hscalar
    rcases List.mem_append.1 hscalar with hbuiltIn | hdeclared
    · exact .inr hbuiltIn
    · exact .inl (List.mem_singleton.1 hdeclared)
  · cases hexample

/-- Every clash is reported with the namings that keep every name or make it one of the scalars
that every schema has, and only with these. -/
theorem reportsClashes_iff (naming : Naming) : naming.ReportsClashes ↔
    ∀ raw, Sdl.isName raw.toList = true → naming raw = raw ∨ naming raw ∈ builtInScalars := by
  refine ⟨fun h raw hraw => h.keeps hraw, fun h examples config sdl raw accepted hclash => ?_⟩
  have complete := Sdl.complete_of_clean accepted
  obtain ⟨m, hm⟩ := complete.typeMap? naming
  refine (scalarCollision_mem_classify ⟨naming, examples⟩ config accepted hm (naming raw)).2
    (.inl ⟨Sdl.Document.mem_typeNames hclash.1, ?_⟩)
  have hname : Sdl.isName raw.toList = true := (List.mem_append.1 hclash.1).elim
    complete.isName_of_mem_objectNames complete.isName_of_mem_unionNames
  rcases h raw hname with hsame | hbuiltIn
  · rw [hsame]
    exact List.mem_append_right _ hclash.2
  · exact List.mem_append_left _ hbuiltIn

theorem reportsClashes_identity : identity.ReportsClashes :=
  (reportsClashes_iff identity).2 fun _ _ => .inl rfl

/-- A prefix makes a long name longer than that of every scalar that every schema has. -/
theorem prefixed_long {start : String} {c : Char} {rest : List Char}
    (hname : Sdl.isName (c :: rest) = true) (hlong : 7 ≤ rest.length)
    (hstart : ¬ start.toList <+: c :: rest) :
    prefixed start (String.ofList (c :: rest)) ≠ String.ofList (c :: rest) ∧
      prefixed start (String.ofList (c :: rest)) ∉ builtInScalars := by
  have hkey : (prefixed start (String.ofList (c :: rest))).toList.length =
      start.toList.length + (rest.length + 1) := by
    rw [toList_prefixed, String.toList_ofList, if_neg hstart, capitalized_name hname,
      List.length_append, List.length_cons]
  have hpos : 0 < start.toList.length := by
    refine List.length_pos_iff.2 fun hempty => hstart ?_
    rw [hempty]
    exact List.nil_prefix
  constructor
  · intro hsame
    rw [hsame, String.toList_ofList, List.length_cons] at hkey
    omega
  · intro hmem
    have hshort : ∀ k ∈ builtInScalars, k.toList.length ≤ 7 := by decide
    have := hshort _ hmem
    omega

/-- A prefix that is not empty hides clashes. -/
theorem reportsClashes_prefixed_iff (start : String) :
    (prefixed start).ReportsClashes ↔ start = "" := by
  rw [reportsClashes_iff]
  constructor
  · intro h
    by_contra hne
    -- No prefix but the empty one is one of both names.
    obtain ⟨c, hname, hstart⟩ : ∃ c, Sdl.isName (c :: List.replicate 7 'a') = true ∧
        ¬ start.toList <+: c :: List.replicate 7 'a' := by
      cases hchars : start.toList with
      | nil => exact absurd (String.toList_eq_nil_iff.1 hchars) hne
      | cons d _ =>
        by_cases hd : d = 'a'
        · exact ⟨'b', by decide, by simp [hd]⟩
        · exact ⟨'a', by decide, by simp [hd]⟩
    obtain ⟨hchanged, hother⟩ := prefixed_long hname (by simp) hstart
    exact (h _ (by rwa [String.toList_ofList])).elim hchanged hother
  · rintro rfl raw _
    exact .inl (if_pos rfl)

end Naming

/-! ## Texts -/

/-- For every naming, every generator of examples and every accepted text, a clash is reported when
the key of the type is the name of a scalar or the generator reports it, and only then. So every
clash of every text is reported exactly with the namings that keep every name or make it one of the
scalars that every schema has. -/
theorem clash_reported_iff (naming : Naming) :
    (∀ examples config sdl, (Sdl.parse sdl).2 = [] →
      ∃ m, (Sdl.parse sdl).1.typeMap? naming = some m ∧
        ∀ raw, (Sdl.parse sdl).1.Clashes raw →
          (Classifier.Reports ⟨naming, examples⟩ config sdl raw ↔
            naming raw ∈ builtInScalars ++ (Sdl.parse sdl).1.scalarNames ∨
            .scalarCollision (naming raw) ∈ (examples (Sdl.parse sdl).1 config m).events)) ∧
    (naming.ReportsClashes ↔
      ∀ raw, Sdl.isName raw.toList = true → naming raw = raw ∨ naming raw ∈ builtInScalars) := by
  refine ⟨fun examples config sdl accepted => ?_, naming.reportsClashes_iff⟩
  obtain ⟨m, hm⟩ := (Sdl.complete_of_clean accepted).typeMap? naming
  refine ⟨m, hm, fun raw hclash => ?_⟩
  have hreports := scalarCollision_mem_classify ⟨naming, examples⟩ config accepted hm (naming raw)
  rw [Classifier.Reports, hreports, and_iff_right (Sdl.Document.mem_typeNames hclash.1)]

/-- An object type and a scalar of one name, and no report of it under any name. -/
theorem prefixed_hides_clash :
    (Sdl.parse "type Date scalar Date").2 = [] ∧
      (Sdl.parse "type Date scalar Date").1.Clashes "Date" ∧
      ∀ k, .scalarCollision k ∉ (Classifier.classify ⟨.prefixed "Sanity", .none⟩
        "type Date scalar Date" ⟨"p", "d", "a", none, none, none, none⟩).events := by
  have hsilent : (Classifier.classify ⟨.prefixed "Sanity", .none⟩ "type Date scalar Date"
      ⟨"p", "d", "a", none, none, none, none⟩).warnings = [] := by
    decide +kernel
  refine ⟨by decide +kernel, ⟨by decide +kernel, by decide +kernel⟩, fun k hk => ?_⟩
  rw [← Logged.mem_warnings rfl, hsilent] at hk
  cases hk

end SchemaCatalog
