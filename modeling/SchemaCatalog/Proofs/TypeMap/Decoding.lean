import SchemaCatalog.Proofs.Classification.Acceptance
import SchemaCatalog.Proofs.Json.RoundTrip
import SchemaCatalog.TypeMap.Json

/-!
# SchemaCatalog.Proofs.TypeMap.Decoding

Type maps are told by their texts.

`TypeMap.ofText?` reads a type map from a text, part by part, and checks that what is written
beside a type follows from it. On the text of a type map it gives that map back, in either layout,
if its types are told by their notations and its examples have whole numbers only. The first holds
of every map that the classification gives (`unmarked_of_classify`), since the names in it are
names of the schema language and hold no marks.
-/

namespace SchemaCatalog

/-! ## Types from their notation -/

namespace TypeRef

/-- The characters of a notation that belong to no name. -/
def marks : List Char := ['[', ']', '!']

/-- A type whose name holds no marks. -/
def Unmarked (t : TypeRef) : Prop := ∀ c ∈ t.namedType.toList, c ∉ marks

/-- The type whose notation, without opening brackets, is read from its end. -/
def ofMarks : List Char → TypeRef
  | '!' :: rest => .nonNull (ofMarks rest)
  | ']' :: rest => .list (ofMarks rest)
  | rest => .named (String.ofList rest.reverse)

/-- The type that is written so. -/
def ofNotation? (s : String) : Option TypeRef :=
  let t := ofMarks (s.toList.filter (· ≠ '[')).reverse
  if t.render = s then some t else none

theorem ofMarks_name {cs : List Char} (h : ∀ c ∈ cs, c ∉ marks) :
    ofMarks cs = .named (String.ofList cs.reverse) := by
  unfold ofMarks
  split
  · exact absurd (h '!' List.mem_cons_self) (by decide)
  · exact absurd (h ']' List.mem_cons_self) (by decide)
  · rfl

theorem ofMarks_chars {t : TypeRef} (h : t.Unmarked) :
    ofMarks (t.chars.filter (· ≠ '[')).reverse = t := by
  induction t with
  | named name =>
    have hname : ∀ c ∈ name.toList, c ∉ marks := h
    have hkeep : name.toList.filter (· ≠ '[') = name.toList := by
      rw [List.filter_eq_self]
      intro c hc
      rw [decide_eq_true_eq]
      rintro rfl
      exact hname '[' hc (by decide)
    rw [chars, hkeep, ofMarks_name fun c hc => hname c (List.mem_reverse.1 hc),
      List.reverse_reverse, String.ofList_toList]
  | list item ih =>
    have hreverse : ((list item).chars.filter (· ≠ '[')).reverse =
        ']' :: (item.chars.filter (· ≠ '[')).reverse := by
      simp [chars]
    rw [hreverse, ofMarks, ih h]
  | nonNull inner ih =>
    have hreverse : ((nonNull inner).chars.filter (· ≠ '[')).reverse =
        '!' :: (inner.chars.filter (· ≠ '[')).reverse := by
      simp [chars]
    rw [hreverse, ofMarks, ih h]

theorem ofNotation?_render {t : TypeRef} (h : t.Unmarked) : ofNotation? t.render = some t := by
  have hchars : t.render.toList = t.chars := String.toList_ofList
  rw [ofNotation?, hchars, ofMarks_chars h]
  exact if_pos rfl

theorem unmarked_of_isName {t : TypeRef} (h : Sdl.isName t.namedType.toList = true) :
    t.Unmarked := by
  intro c hc hmark
  have hpart : Sdl.isNamePart c = true := by
    revert hc h
    cases t.namedType.toList with
    | nil => exact fun h => by cases h
    | cons start part =>
      intro h hc
      obtain ⟨hstart, hall⟩ := Bool.and_eq_true_iff.1 h
      rcases List.mem_cons.1 hc with rfl | hc
      · rw [Sdl.isNamePart, hstart, Bool.true_or]
      · exact List.all_eq_true.1 hall c hc
  simp only [marks, List.mem_cons, List.not_mem_nil, or_false] at hmark
  rcases hmark with rfl | rfl | rfl <;> exact absurd hpart (by decide)

end TypeRef

/-! ## Parts of JSON values -/

theorem mapM_map {α β : Type} {f : β → Option α} {g : α → β} {as : List α}
    (h : ∀ a ∈ as, f (g a) = some a) : (as.map g).mapM f = some as := by
  induction as with
  | nil => rfl
  | cons a as ih =>
    obtain ⟨ha, has⟩ := List.forall_mem_cons.1 h
    exact mapM_cons_eq_some.2 ⟨a, as, ha, ih has, rfl⟩

namespace Json

def text? : Json → Option String
  | string s => s
  | _ => none

def bool? : Json → Option Bool
  | bool b => some b
  | _ => none

/-- A text or null. -/
def optionalText? : Json → Option (Option String)
  | null => some none
  | j => j.text?.map some

/-- The texts of a list. -/
def texts? : Json → Option (List String)
  | array items => items.mapM text?
  | _ => none

/-- The values of an object with just these keys in this order. -/
def fields? (keys : List String) : Json → Option (List Json)
  | object members =>
    if members.map (·.1) = keys.map some then some (members.map (·.2)) else none
  | _ => none

/-- No key comes twice in an object. -/
def DistinctKeys : Json → Prop
  | object members => (members.map (·.1)).Nodup
  | _ => True

@[simp] theorem text?_text (s : String) : (text s).text? = some s := rfl

theorem optionalText?_optionalText (s : Option String) :
    (optionalText s).optionalText? = some s := by
  cases s <;> rfl

theorem texts?_texts (list : List String) : (array (list.map text)).texts? = some list :=
  mapM_map fun _ _ => rfl

theorem fields?_record (members : List (String × Json)) :
    (record members).fields? (members.map (·.1)) = some (members.map (·.2)) := by
  rw [record, fields?]
  simp

theorem Whole.record {members : List (String × Json)} (h : ∀ member ∈ members, Whole member.2) :
    Whole (Json.record members) := by
  refine .object fun member hmember => ?_
  obtain ⟨member', hmember', rfl⟩ := List.mem_map.1 hmember
  exact h member' hmember'

attribute [simp] Whole.bool

@[simp] theorem Whole.text (s : String) : Whole (Json.text s) := .string s

@[simp] theorem Whole.optionalText (s : Option String) : Whole (Json.optionalText s) := by
  cases s with
  | none => exact .null
  | some s => exact .string s

@[simp] theorem Whole.texts (list : List String) : Whole (Json.array (list.map Json.text)) := by
  refine .array fun item hitem => ?_
  obtain ⟨s, _, rfl⟩ := List.mem_map.1 hitem
  exact .string s

end Json

/-! ## Type maps from JSON -/

namespace OrderedMap

variable {α : Type} {value? : Json → Option α} {write : α → Json} {m : OrderedMap α}

def member? (value? : Json → Option α) (member : Option String × Json) : Option (String × α) := do
  return (← member.1, ← value? member.2)

/-- The map that is written as an object. -/
def ofJson? (value? : Json → Option α) : Json → Option (OrderedMap α)
  | .object members => do
    let entries ← members.mapM (member? value?)
    if h : (entries.map (·.1)).Nodup then some ⟨entries, h⟩ else none
  | _ => none

theorem ofJson?_toJson (h : ∀ a ∈ m.values, value? (write a) = some a) :
    ofJson? value? (m.toJson write) = some m := by
  have hentries : ((m.entries.map fun entry => (entry.1, write entry.2)).map
      fun member => (some member.1, member.2)).mapM (member? value?) = some m.entries := by
    rw [List.map_map]
    refine mapM_map fun entry hentry => ?_
    have hvalue := h entry.2 (List.mem_map.2 ⟨entry, hentry, rfl⟩)
    simp [member?, hvalue]
  rw [toJson, Json.record, ofJson?, hentries]
  exact dif_pos m.distinct

theorem distinctKeys_toJson (write : α → Json) (m : OrderedMap α) :
    (m.toJson write).DistinctKeys := by
  have hkeys : ((m.entries.map fun entry => (entry.1, write entry.2)).map
      fun member => (some member.1, member.2)).map (·.1) = m.keys.map some := by
    simp [keys]
  rw [toJson, Json.record, Json.DistinctKeys, hkeys]
  exact List.Pairwise.map some (fun _ _ hne h => hne (Option.some.inj h)) m.distinct

theorem whole_toJson (h : ∀ a ∈ m.values, (write a).Whole) : (m.toJson write).Whole := by
  refine .record fun member hmember => ?_
  obtain ⟨entry, hentry, rfl⟩ := List.mem_map.1 hmember
  exact h entry.2 (List.mem_map.2 ⟨entry, hentry, rfl⟩)

end OrderedMap

namespace FieldDef

def ofJson? (j : Json) : Option FieldDef := do
  match ← j.fields? ["type", "namedType", "isList", "aliasFor", "isReference"] with
  | [type, namedType, isList, aliasFor, isReference] =>
    let f : FieldDef := ⟨← TypeRef.ofNotation? (← type.text?), ← aliasFor.optionalText?,
      ← isReference.bool?⟩
    if namedType.text? = some f.namedType ∧ isList.bool? = some f.isList then some f else none
  | _ => none

theorem ofJson?_toJson {f : FieldDef} (h : f.type.Unmarked) : ofJson? f.toJson = some f := by
  have hfields : f.toJson.fields? ["type", "namedType", "isList", "aliasFor", "isReference"] =
      some [.text f.type.render, .text f.namedType, .bool f.isList, .optionalText f.aliasFor,
        .bool f.isReference] := Json.fields?_record _
  simp only [ofJson?, hfields, Json.text?_text, Json.bool?, TypeRef.ofNotation?_render h,
    Json.optionalText?_optionalText, Option.bind_eq_bind, Option.bind_some, namedType, isList,
    and_self, if_true]

@[simp] theorem whole_toJson (f : FieldDef) : f.toJson.Whole := by
  refine .record ?_
  simp

end FieldDef

namespace ObjectDef

def ofJson? (j : Json) : Option ObjectDef := do
  match ← j.fields? ["name", "kind", "isDocument", "fields"] with
  | [name, kind, isDocument, fields] =>
    let o : ObjectDef := ⟨← name.text?, ← isDocument.bool?,
      ← OrderedMap.ofJson? FieldDef.ofJson? fields⟩
    if kind.text? = some "Object" then some o else none
  | _ => none

theorem ofJson?_toJson {o : ObjectDef} (h : ∀ f ∈ o.fields.values, f.type.Unmarked) :
    ofJson? o.toJson = some o := by
  have hfields : o.toJson.fields? ["name", "kind", "isDocument", "fields"] =
      some [.text o.name, .text "Object", .bool o.isDocument, o.fields.toJson FieldDef.toJson] :=
    Json.fields?_record _
  have hmap := OrderedMap.ofJson?_toJson fun f hf => FieldDef.ofJson?_toJson (h f hf)
  simp only [ofJson?, hfields, Json.text?_text, Json.bool?, hmap, Option.bind_eq_bind,
    Option.bind_some, if_true]

@[simp] theorem whole_toJson (o : ObjectDef) : o.toJson.Whole := by
  have hfields : (o.fields.toJson FieldDef.toJson).Whole :=
    OrderedMap.whole_toJson fun f _ => f.whole_toJson
  refine .record ?_
  simp [hfields]

end ObjectDef

namespace UnionDef

def ofJson? (j : Json) : Option UnionDef := do
  match ← j.fields? ["name", "kind", "types"] with
  | [name, kind, types] =>
    let u : UnionDef := ⟨← name.text?, ← types.texts?⟩
    if kind.text? = some "Union" then some u else none
  | _ => none

theorem ofJson?_toJson (u : UnionDef) : ofJson? u.toJson = some u := by
  have hfields : u.toJson.fields? ["name", "kind", "types"] =
      some [.text u.name, .text "Union", .array (u.types.map .text)] := Json.fields?_record _
  simp only [ofJson?, hfields, Json.text?_text, Json.texts?_texts, Option.bind_eq_bind,
    Option.bind_some, if_true]

@[simp] theorem whole_toJson (u : UnionDef) : u.toJson.Whole := by
  refine .record ?_
  simp

end UnionDef

namespace TypeMap

variable {m : TypeMap}

def ofJson? (j : Json) : Option TypeMap := do
  match ← j.fields? ["scalars", "unions", "objects", "exampleValues"] with
  | [scalars, unions, objects, exampleValues] =>
    return ⟨← scalars.texts?, ← OrderedMap.ofJson? UnionDef.ofJson? unions,
      ← OrderedMap.ofJson? ObjectDef.ofJson? objects, ← OrderedMap.ofJson? some exampleValues⟩
  | _ => none

/-- The type map that a text denotes. -/
def ofText? (s : String) : Option TypeMap := (Json.read? s).bind ofJson?

/-- The names in the types of fields hold no marks. -/
def Unmarked (m : TypeMap) : Prop :=
  ∀ o ∈ m.objects.values, ∀ f ∈ o.fields.values, f.type.Unmarked

/-- The numbers in the example values are whole. -/
def WholeExamples (m : TypeMap) : Prop := ∀ j ∈ m.exampleValues.values, j.Whole

/-- No object that is written for a map repeats a key. -/
structure KeysDistinct (m : TypeMap) : Prop where
  unions : (m.unions.toJson UnionDef.toJson).DistinctKeys
  objects : (m.objects.toJson ObjectDef.toJson).DistinctKeys
  fields : ∀ o ∈ m.objects.values, (o.fields.toJson FieldDef.toJson).DistinctKeys
  exampleValues : (m.exampleValues.toJson id).DistinctKeys

theorem ofJson?_toJson (h : m.Unmarked) : ofJson? m.toJson = some m := by
  have hfields : m.toJson.fields? ["scalars", "unions", "objects", "exampleValues"] =
      some [.array (m.scalars.map .text), m.unions.toJson UnionDef.toJson,
        m.objects.toJson ObjectDef.toJson, m.exampleValues.toJson id] := Json.fields?_record _
  have hunions := OrderedMap.ofJson?_toJson (m := m.unions) fun u _ => UnionDef.ofJson?_toJson u
  have hobjects := OrderedMap.ofJson?_toJson fun o ho => ObjectDef.ofJson?_toJson (h o ho)
  have hexamples : OrderedMap.ofJson? some (m.exampleValues.toJson id) = some m.exampleValues :=
    OrderedMap.ofJson?_toJson fun _ _ => rfl
  simp only [ofJson?, hfields, Json.texts?_texts, hunions, hobjects, hexamples,
    Option.bind_eq_bind, Option.bind_some]
  rfl

theorem whole_toJson (h : m.WholeExamples) : m.toJson.Whole := by
  have hunions : (m.unions.toJson UnionDef.toJson).Whole :=
    OrderedMap.whole_toJson fun u _ => u.whole_toJson
  have hobjects : (m.objects.toJson ObjectDef.toJson).Whole :=
    OrderedMap.whole_toJson fun o _ => o.whole_toJson
  have hexamples : (m.exampleValues.toJson id).Whole := OrderedMap.whole_toJson h
  refine .record ?_
  simp [hunions, hobjects, hexamples]

theorem keysDistinct (m : TypeMap) : m.KeysDistinct where
  unions := OrderedMap.distinctKeys_toJson ..
  objects := OrderedMap.distinctKeys_toJson ..
  fields _ _ := OrderedMap.distinctKeys_toJson ..
  exampleValues := OrderedMap.distinctKeys_toJson ..

theorem ofText?_render (layout : Json.Layout) (hmarks : m.Unmarked) (hexamples : m.WholeExamples) :
    ofText? (m.render layout) = some m := by
  rw [ofText?, render, Json.read?_render layout (whole_toJson hexamples), Option.bind_some,
    ofJson?_toJson hmarks]

end TypeMap

/-! ## Type maps of texts -/

namespace Sdl

variable {text : String}

theorem FieldDefinition.Complete.unmarked {f : FieldDefinition} {entry : String × FieldDef}
    (h : f.Complete text) (hentry : f.keyed? = some entry) : entry.2.type.Unmarked := by
  obtain ⟨_, t, ht⟩ := h
  obtain ⟨name, type, _, htype, rfl⟩ := FieldDefinition.of_keyed? hentry
  have hsame : t = type := by
    have hnode := TypeNode.ref?_node t
    rw [← ht.node, htype, TypeNode.ref?_node] at hnode
    exact (Option.some.inj hnode).symm
  rw [← hsame]
  exact TypeRef.unmarked_of_isName ht.name

theorem Definition.Complete.unmarked {o : ObjectType} {naming : Naming}
    {entry : String × ObjectDef} (h : (Definition.object o).Complete text)
    (hentry : o.keyed? naming = some entry) :
    ∀ f ∈ entry.2.fields.values, f.type.Unmarked := by
  obtain ⟨raw, fields, _, hfields, rfl⟩ := ObjectType.of_keyed? hentry
  have hall := forall_of_mapM (P := fun e => e.2.type.Unmarked) hfields
    fun f hf _ hentry => (h.2 f hf).unmarked hentry
  intro f hf
  obtain ⟨entry, hmem, rfl⟩ := List.mem_map.1 hf
  exact hall entry (OrderedMap.mem_of_mem_ofList hmem)

theorem Document.Complete.unmarked {d : Document} {naming : Naming} {m : TypeMap}
    (h : d.Complete text) (hm : d.typeMap? naming = some m) : m.Unmarked := by
  obtain ⟨objects, unions, scalars, hobjects, _, _, rfl⟩ := Document.of_typeMap? hm
  have hall := forall_of_mapM (P := fun e => ∀ f ∈ e.2.fields.values, f.type.Unmarked) hobjects
    fun o ho _ hentry => Definition.Complete.unmarked (h _ (Document.mem_objects.1 ho)) hentry
  intro o ho
  obtain ⟨entry, hmem, rfl⟩ := List.mem_map.1 ho
  exact hall entry (OrderedMap.mem_of_mem_ofList hmem)

end Sdl

section Classified

variable {c : Classifier} {config : Config} {sdl : String} {m : TypeMap}
  (hm : (c.classify sdl config).value = .ok m)
include hm

theorem unmarked_of_classify : m.Unmarked := by
  by_cases hclean : (Sdl.parse sdl).2 = []
  · have hcomplete := Sdl.complete_of_clean hclean
    obtain ⟨m₀, hm₀⟩ := hcomplete.typeMap? c.naming
    have hmarks := hcomplete.unmarked hm₀
    rw [value_classify c config hclean hm₀] at hm
    cases hm
    exact hmarks
  · rw [classify_of_faulty c config hclean] at hm
    cases hm

/-- A type map can be read from either of its texts, and no two have a text in common. -/
theorem classified_told_by_text (hexamples : m.WholeExamples) :
    (∀ layout, Json.read? (m.render layout) = some m.toJson ∧
      TypeMap.ofText? (m.render layout) = some m) ∧
    m.KeysDistinct ∧
    ∀ c' config' sdl' m', (Classifier.classify c' sdl' config').value = .ok m' →
      m'.WholeExamples → ∀ layout layout', m.render layout = m'.render layout' → m = m' := by
  have hmarks := unmarked_of_classify hm
  refine ⟨fun layout => ⟨?_, ?_⟩, m.keysDistinct, ?_⟩
  · exact Json.read?_render layout (m.whole_toJson hexamples)
  · exact TypeMap.ofText?_render layout hmarks hexamples
  · intro c' config' sdl' m' hm' hexamples' layout layout' hsame
    have htext := TypeMap.ofText?_render layout hmarks hexamples
    rw [hsame, TypeMap.ofText?_render layout' (unmarked_of_classify hm') hexamples'] at htext
    exact (Option.some.inj htext).symm

end Classified

/-- A type map with an example that has to be escaped. -/
theorem told_by_text_escaped : ∃ m,
    (Classifier.classify ⟨.identity, .fixed [("B", .text "\"\n")]⟩ "type A{f:[B!]}"
      ⟨"p", "d", "a", none, none, none, none⟩).value = .ok m ∧
    m.exampleValues.get? "B" = some (.text "\"\n") ∧ m.WholeExamples ∧
    ∀ layout, TypeMap.ofText? (m.render layout) = some m := by
  have hclean : (Sdl.parse "type A{f:[B!]}").2 = [] := by decide +kernel
  obtain ⟨m, hm⟩ := (Sdl.complete_of_clean hclean).typeMap? .identity
  have hvalue := value_classify ⟨.identity, .fixed [("B", .text "\"\n")]⟩
    ⟨"p", "d", "a", none, none, none, none⟩ hclean hm
  have hexamples : TypeMap.WholeExamples
      { m with exampleValues := .ofList [("B", .text "\"\n")] } := by
    intro j hj
    rw [List.mem_singleton.1 hj]
    exact .text _
  refine ⟨_, hvalue, rfl, hexamples, fun layout => ?_⟩
  exact ((classified_told_by_text hvalue hexamples).1 layout).2

end SchemaCatalog
