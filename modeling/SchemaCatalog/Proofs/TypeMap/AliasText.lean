import SchemaCatalog.Proofs.Sdl.AliasText
import SchemaCatalog.Proofs.TypeMap.Decoding
import SchemaCatalog.Proofs.TypeMap.Members

/-!
# SchemaCatalog.Proofs.TypeMap.AliasText

The name of another field on its way from a schema text into a type map and out again.

It is written with the escapes of the one language, denoted in between, and written with those of
the other (`alias_survives`). Neither side knows of the other: the literal denotes what it spells,
and the rendered map is read back whole.
-/

namespace SchemaCatalog

open Sdl (aliasText aliasDirective quoted)
open Sdl.StringLiteral (Spelled spelled_escape escapeChar)

theorem Sdl.aliasFor_aliasDirective {text body : List Char} (h : Spelled text body)
    (f : FieldDefinition) (hf : f.directives = [aliasDirective body]) :
    f.aliasFor = pure (some (String.ofList text)) := by
  have hvalue : f.aliasValue? = some ⟨.string, String.ofList (quoted body)⟩ := by
    rw [FieldDefinition.aliasValue?, FieldDefinition.directive?, hf]
    rfl
  have htext : Value.text? ⟨.string, String.ofList (quoted body)⟩ = some (String.ofList text) := by
    rw [Value.text?, if_pos rfl, String.toList_ofList, quoted, h.value]
  rw [FieldDefinition.aliasFor, hvalue]
  dsimp only
  rw [htext]

/-- The type map of the text. -/
def aliasMap (naming : Naming) (text : String) : TypeMap where
  scalars := builtInScalars
  unions := .empty
  objects := .ofList [(naming "T",
    ⟨naming "T", false, .ofList [("f", ⟨.named "X", some text, false⟩)]⟩)]
  exampleValues := .empty

theorem typeMap?_aliasText {s : String} {body : List Char} (h : Spelled s.toList body)
    (naming : Naming) : (Sdl.parse (aliasText body)).2 = [] ∧
      (Sdl.parse (aliasText body)).1.typeMap? naming = some (aliasMap naming s) := by
  obtain ⟨source, hparse⟩ := Sdl.parse_aliasText h
  rw [hparse]
  refine ⟨rfl, ?_⟩
  have hkeyed : Sdl.FieldDefinition.keyed? ⟨some "f", .named "X", source, [aliasDirective body]⟩ =
      some ("f", ⟨.named "X", some s, false⟩) := by
    rw [Sdl.FieldDefinition.keyed?, Sdl.aliasFor_aliasDirective h _ rfl, String.ofList_toList]
    rfl
  have hobject : Sdl.ObjectType.keyed? naming ⟨some "T", [],
      [⟨some "f", .named "X", source, [aliasDirective body]⟩]⟩ = some (naming "T",
        ⟨naming "T", false, .ofList [("f", ⟨.named "X", some s, false⟩)]⟩) := by
    rw [Sdl.ObjectType.keyed?, OrderedMap.ofList_eq_lastWins]
    simp [hkeyed]
  have hempty : OrderedMap.lastWins ([] : List (String × UnionDef)) = .empty := rfl
  rw [Sdl.Document.typeMap?, aliasMap, OrderedMap.ofList_eq_lastWins]
  simp [Sdl.Document.objects, Sdl.Document.unions, Sdl.Document.scalars, hobject, hempty]

/-- Any text can be the name of a field that another one takes its value from: however it is
escaped in the schema, classification finds it, and either text of the type map gives it back. -/
theorem alias_survives {s : String} {body : List Char} (h : Spelled s.toList body)
    (c : Classifier) (config : Config) :
    ∃ m o f, (c.classify (aliasText body) config).value = .ok m ∧
      m.objects.get? (c.naming "T") = some o ∧ o.fields.get? "f" = some f ∧
      f.aliasFor = some s ∧ (c.examples = .none → m.WholeExamples) ∧
      (m.WholeExamples → ∀ layout, ∃ j, Json.read? (m.render layout) = some j ∧
        j.at? ["objects", c.naming "T", "fields", "f", "aliasFor"] = some (.text s)) := by
  obtain ⟨hclean, hm⟩ := typeMap?_aliasText h c.naming
  have hvalue := value_classify c config hclean hm
  have hobject : (aliasMap c.naming s).objects.get? (c.naming "T") = some
      ⟨c.naming "T", false, .ofList [("f", ⟨.named "X", some s, false⟩)]⟩ :=
    OrderedMap.get?_insert_self .empty _ _
  have hfield : (OrderedMap.ofList [("f", FieldDef.mk (.named "X") (some s) false)]).get? "f" =
      some ⟨.named "X", some s, false⟩ := rfl
  refine ⟨_, _, _, hvalue, hobject, hfield, rfl, fun hnone => ?_, fun hexamples layout => ?_⟩
  · rw [hnone]
    intro j hj
    cases hj
  · refine ⟨_, Json.read?_render layout (TypeMap.whole_toJson hexamples), ?_⟩
    exact (TypeMap.at?_field (m := { aliasMap c.naming s with exampleValues := _ }) hobject hfield
      ["aliasFor"]).trans (Json.at?_cons_of_eq (Json.member?_record _ _) [])

/-- A quote, what looks like an escape, a control character and a character of two UTF-16 units. -/
theorem alias_survives_escaped : ∃ m,
    (Classifier.plain.classify
      "type T \x7b f: X @jsonAlias(for: \"\\\"\\\\u0041\\u001f😀\") \x7d"
      ⟨"p", "d", "a", none, none, none, none⟩).value = .ok m ∧
    ∀ layout, ∃ j, Json.read? (m.render layout) = some j ∧
      j.at? ["objects", "T", "fields", "f", "aliasFor"] = some (.text "\"\\u0041\x1f😀") := by
  obtain ⟨m, _, _, hvalue, _, _, _, hnone, hread⟩ := alias_survives
    (spelled_escape "\"\\u0041\x1f😀".toList) Classifier.plain
    ⟨"p", "d", "a", none, none, none, none⟩
  have htext : aliasText ("\"\\u0041\x1f😀".toList.flatMap escapeChar) =
      "type T \x7b f: X @jsonAlias(for: \"\\\"\\\\u0041\\u001f😀\") \x7d" := by
    decide +kernel
  rw [htext] at hvalue
  exact ⟨m, hvalue, hread (hnone rfl)⟩

end SchemaCatalog
