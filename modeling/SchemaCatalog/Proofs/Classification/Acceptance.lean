import SchemaCatalog.Proofs.Classification.Denotation

/-!
# SchemaCatalog.Proofs.Classification.Acceptance

The grammar alone decides which texts have a type map.

A text with complaints is refused with all of them, before anything else is looked at: the
outcome does not mention the naming, the generator or the settings, and its one event leaves no
room for what a generator would emit. A text without complaints is never refused. Both hang on
`complete_of_clean`: the branches for missing parts are there, and no tree of an accepted text
takes them.
-/

namespace SchemaCatalog

/-- How a text with these complaints is refused. -/
def refusal {α : Type} (errors : List Sdl.SyntaxError) : Logged (Except SchemaError α) :=
  ⟨.error (.syntaxErrors errors), [.syntaxErrors errors.length]⟩

/-- Everything that counts in a document is in the type map. -/
structure TypeMap.Covers (m : TypeMap) (naming : Naming) (d : Sdl.Document) : Prop where
  object : ∀ o ∈ d.objects, ∃ raw object, o.name = some raw ∧
    (classifyObject naming o).value = .ok object ∧ naming raw ∈ m.objects.keys ∧
    ∀ f ∈ o.fields, ∃ name type, f.name = some name ∧ f.type = TypeRef.node type ∧
      TypeRef.ofNode "field type" f.type = .ok type ∧ name ∈ object.fields.keys
  union : ∀ u ∈ d.unions, ∃ raw, u.name = some raw ∧ naming raw ∈ m.unions.keys
  scalar : ∀ s ∈ d.scalars, ∃ raw, s.name = some raw ∧ raw ∈ m.scalars

theorem parseSchema_of_faulty {sdl : String} (h : (Sdl.parse sdl).2 ≠ []) :
    parseSchema sdl = refusal (Sdl.parse sdl).2 := by
  unfold parseSchema
  split
  · rename_i document heq
    rw [heq] at h
    exact absurd rfl h
  · rename_i errors hne heq
    rw [heq]
    rfl

theorem classify_of_faulty (c : Classifier) (config : Config) {sdl : String}
    (h : (Sdl.parse sdl).2 ≠ []) : c.classify sdl config = refusal (Sdl.parse sdl).2 := by
  rw [Classifier.classify, parseSchema_of_faulty h]
  rfl

theorem Sdl.Document.covers {d : Document} {naming : Naming} {m : TypeMap}
    (h : d.typeMap? naming = some m) : m.Covers naming d := by
  obtain ⟨objects, unions, scalars, hobjects, hunions, hscalars, rfl⟩ := of_typeMap? h
  constructor
  · intro o ho
    obtain ⟨entry, hmem, hentry⟩ := exists_mem_of_mapM hobjects ho
    have hvalue := (value_classifyObject hentry).1
    obtain ⟨raw, fields, hraw, hfields, rfl⟩ := ObjectType.of_keyed? hentry
    refine ⟨raw, _, hraw, hvalue, OrderedMap.mem_keys_ofList hmem, fun f hf => ?_⟩
    obtain ⟨field, hmem, hfield⟩ := exists_mem_of_mapM hfields hf
    obtain ⟨name, type, hname, htype, rfl⟩ := FieldDefinition.of_keyed? hfield
    refine ⟨name, type, hname, htype, ?_, OrderedMap.mem_keys_ofList hmem⟩
    rw [htype, TypeRef.ofNode_node]
  · intro u hu
    obtain ⟨entry, hmem, hentry⟩ := exists_mem_of_mapM hunions hu
    obtain ⟨raw, hraw, rfl⟩ := UnionType.of_keyed? hentry
    exact ⟨raw, hraw, OrderedMap.mem_keys_ofList hmem⟩
  · intro s hs
    obtain ⟨raw, hmem, hraw⟩ := exists_mem_of_mapM hscalars hs
    exact ⟨raw, hraw, List.mem_append_right _ hmem⟩

theorem classify_of_clean (c : Classifier) (config : Config) {sdl : String}
    (h : (Sdl.parse sdl).2 = []) :
    ∃ m, (c.classify sdl config).value = .ok m ∧ m.Covers c.naming (Sdl.parse sdl).1 := by
  obtain ⟨m, hm⟩ := (Sdl.complete_of_clean h).typeMap? c.naming
  have hcovers := Sdl.Document.covers hm
  exact ⟨_, value_classify c config h hm, hcovers.object, hcovers.union, hcovers.scalar⟩

theorem classify_never_incomplete (c : Classifier) (sdl : String) (config : Config)
    (part : String) : (c.classify sdl config).value ≠ .error (.incomplete part) := by
  by_cases h : (Sdl.parse sdl).2 = []
  · obtain ⟨m, hm, _⟩ := classify_of_clean c config h
    rw [hm]
    exact fun hcontra => by cases hcontra
  · rw [classify_of_faulty c config h]
    exact fun hcontra => by cases hcontra

theorem grammar_alone_decides (sdl : String) :
    ((Sdl.parse sdl).2 ≠ [] →
      parseSchema sdl = refusal (Sdl.parse sdl).2 ∧
      (∀ c config, Classifier.classify c sdl config = refusal (Sdl.parse sdl).2) ∧
      (∀ config, typeMapOfSdl sdl config = refusal (Sdl.parse sdl).2) ∧
      (Event.syntaxErrors (Sdl.parse sdl).2.length).level = .debug) ∧
    ((Sdl.parse sdl).2 = [] →
      parseSchema sdl = pure (.ok (Sdl.parse sdl).1) ∧
      (Sdl.parse sdl).1.Complete sdl ∧
      (∀ config, ∃ m, (typeMapOfSdl sdl config).value = .ok m) ∧
      ∀ c config, ∃ m, (Classifier.classify c sdl config).value = .ok m ∧
        m.Covers c.naming (Sdl.parse sdl).1) ∧
    ∀ part, (parseSchema sdl).value ≠ .error (.incomplete part) ∧
      (∀ config, (typeMapOfSdl sdl config).value ≠ .error (.incomplete part)) ∧
      ∀ c config, (Classifier.classify c sdl config).value ≠ .error (.incomplete part) := by
  refine ⟨fun faulty => ⟨?_, ?_, ?_, rfl⟩, fun clean => ⟨?_, ?_, ?_, ?_⟩, fun part => ⟨?_, ?_, ?_⟩⟩
  · exact parseSchema_of_faulty faulty
  · exact fun c config => classify_of_faulty c config faulty
  · exact fun config => classify_of_faulty .plain config faulty
  · exact parseSchema_of_clean clean
  · exact Sdl.complete_of_clean clean
  · intro config
    obtain ⟨m, hm, _⟩ := classify_of_clean .plain config clean
    exact ⟨m, hm⟩
  · exact fun c config => classify_of_clean c config clean
  · by_cases h : (Sdl.parse sdl).2 = []
    · rw [parseSchema_of_clean h]
      exact fun hcontra => by cases hcontra
    · rw [parseSchema_of_faulty h]
      exact fun hcontra => by cases hcontra
  · exact fun config => classify_never_incomplete .plain sdl config part
  · exact fun c config => classify_never_incomplete c sdl config part

/-- The empty text is refused, and a text with one type is not. -/
theorem grammar_decides_empty_text :
    parseSchema "" = refusal [⟨"Unexpected <EOF>.", 0⟩] ∧
      ∃ m, (typeMapOfSdl "type A{f:B}" ⟨"p", "d", "a", none, none, none, none⟩).value = .ok m := by
  have faulty : (Sdl.parse "").2 = [⟨"Unexpected <EOF>.", 0⟩] := by decide +kernel
  have clean : (Sdl.parse "type A{f:B}").2 = [] := by decide +kernel
  have hrefused := (grammar_alone_decides "").1 (by rw [faulty]; simp)
  have haccepted := (grammar_alone_decides "type A{f:B}").2.1 clean
  rw [faulty] at hrefused
  exact ⟨hrefused.1, haccepted.2.2.1 _⟩

end SchemaCatalog
