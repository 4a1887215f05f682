import SchemaCatalog.Proofs.Classification.Examples
import SchemaCatalog.Proofs.FieldDirectives
import SchemaCatalog.Proofs.Sdl.Annotations

/-!
# SchemaCatalog.Proofs.Classification.Directives

What directives do to a type map.

Every field of a map has its alias and its reference from the directives of one field of the text.
The loops complain about aliases field by field and about nothing else in these words
(`aliasComplaints_classifyDocument`). And of all directives of a text, those on arguments and
object types included, only the first alias and the first reference of each field reach the map
(`typeMap?_of_governing`).
-/

namespace SchemaCatalog

open Sdl (AnnotatedDefinition AnnotatedField AnnotatedInput AnnotatedObject parseAnnotated
  governing)

/-! ## Complaints about aliases -/

/-- The events about aliases that are passed over, in order. -/
def aliasComplaints (events : List Event) : List Event :=
  events.filter (·.message = "Ignoring non-string @jsonAlias argument")

@[simp] theorem aliasComplaints_append (events events' : List Event) :
    aliasComplaints (events ++ events') = aliasComplaints events ++ aliasComplaints events' :=
  List.filter_append ..

namespace Sdl

def ObjectType.aliasEvents (o : ObjectType) : List Event := o.fields.flatMap (·.aliasFor.events)

/-- What there is to complain about, field by field. -/
def Document.aliasEvents (d : Document) : List Event := d.objects.flatMap (·.aliasEvents)

theorem FieldDefinition.aliasComplaints_aliasFor (f : FieldDefinition) :
    aliasComplaints f.aliasFor.events = f.aliasFor.events := by
  cases h : f.aliasValue? with
  | none =>
    rw [events_aliasFor_of_none h]
    rfl
  | some v =>
    rw [events_aliasFor_of_some h]
    split
    · rfl
    · simp [aliasComplaints, Event.message]

theorem ObjectType.aliasComplaints_aliasEvents (o : ObjectType) :
    aliasComplaints o.aliasEvents = o.aliasEvents := by
  rw [aliasEvents]
  induction o.fields with
  | nil => rfl
  | cons f rest ih =>
    rw [List.flatMap_cons, aliasComplaints_append, f.aliasComplaints_aliasFor, ih]

end Sdl

theorem events_classifyField {f : Sdl.FieldDefinition} {entry : String × FieldDef}
    (h : f.keyed? = some entry) : (classifyField f).events = f.aliasFor.events := by
  obtain ⟨name, type, hname, htype, rfl⟩ := Sdl.FieldDefinition.of_keyed? h
  rw [classifyField, Logged.andThen_of_ok (value_require hname _), hname, htype,
    TypeRef.ofNode_node]
  exact List.append_nil _

theorem events_classifyFields {fs : List Sdl.FieldDefinition} {entries : List (String × FieldDef)}
    (h : fs.mapM Sdl.FieldDefinition.keyed? = some entries) (fields : OrderedMap FieldDef) :
    (classifyFields fs fields).events = fs.flatMap (·.aliasFor.events) := by
  induction fs generalizing fields entries with
  | nil => rfl
  | cons f rest ih =>
    obtain ⟨entry, entries', hentry, hrest, rfl⟩ := mapM_cons_eq_some.1 h
    rw [classifyFields, Logged.andThen_of_ok (value_classifyField hentry),
      events_classifyField hentry, ih hrest, List.flatMap_cons]

theorem events_classifyObject {naming : Naming} {o : Sdl.ObjectType} {entry : String × ObjectDef}
    (h : o.keyed? naming = some entry) : (classifyObject naming o).events = o.aliasEvents := by
  obtain ⟨raw, fields, hraw, hfields, rfl⟩ := Sdl.ObjectType.of_keyed? h
  rw [classifyObject, Logged.andThen_of_ok (value_require hraw _), hraw,
    Logged.andThen_of_ok (value_classifyFields hfields .empty), events_classifyFields hfields]
  exact List.append_nil _

theorem aliasComplaints_warnIf {event : Event}
    (h : event.message ≠ "Ignoring non-string @jsonAlias argument") (taken : Bool) :
    aliasComplaints (warnIf taken event).events = [] := by
  cases taken with
  | true => simp [warnIf, Logged.emit, aliasComplaints, h]
  | false => rfl

theorem aliasComplaints_classifyObjects {naming : Naming} {os : List Sdl.ObjectType}
    {entries : List (String × ObjectDef)}
    (h : os.mapM (Sdl.ObjectType.keyed? naming) = some entries) (objects : OrderedMap ObjectDef) :
    aliasComplaints (classifyObjects naming os objects).events = os.flatMap (·.aliasEvents) := by
  induction os generalizing objects entries with
  | nil => rfl
  | cons o rest ih =>
    obtain ⟨entry, entries', hentry, hrest, rfl⟩ := mapM_cons_eq_some.1 h
    rw [classifyObjects, Logged.andThen_of_ok (value_classifyObject hentry).1,
      events_classifyObject hentry, Logged.events_bind, aliasComplaints_append,
      aliasComplaints_append, o.aliasComplaints_aliasEvents,
      aliasComplaints_warnIf (by simp [Event.message]), ih hrest, List.nil_append,
      List.flatMap_cons]

theorem aliasComplaints_classifyUnions (naming : Naming) (us : List Sdl.UnionType)
    (unions : OrderedMap UnionDef) :
    aliasComplaints (classifyUnions naming us unions).events = [] := by
  induction us generalizing unions with
  | nil => rfl
  | cons u rest ih =>
    rw [classifyUnions]
    split
    · exact ih unions
    · rw [Logged.events_bind, aliasComplaints_append,
        aliasComplaints_warnIf (by simp [Event.message]), ih, List.nil_append]

theorem aliasComplaints_warnEach {event : String → Event}
    (h : ∀ name, (event name).message ≠ "Ignoring non-string @jsonAlias argument")
    (test : String → Bool) (names : List String) :
    aliasComplaints (warnEach test event names).events = [] := by
  induction names with
  | nil => rfl
  | cons name rest ih =>
    rw [warnEach, Logged.events_bind, aliasComplaints_append, aliasComplaints_warnIf (h name), ih,
      List.nil_append]

theorem aliasComplaints_warnOnCollisions (m : TypeMap) :
    aliasComplaints (warnOnCollisions m).events = [] := by
  rw [warnOnCollisions, Logged.events_bind, aliasComplaints_append,
    aliasComplaints_warnEach fun _ => by simp [Event.message],
    aliasComplaints_warnEach fun _ => by simp [Event.message], List.nil_append]

theorem aliasComplaints_classifyDocument {naming : Naming} {d : Sdl.Document} {m : TypeMap}
    (h : d.typeMap? naming = some m) :
    aliasComplaints (classifyDocument naming d).events = d.aliasEvents := by
  obtain ⟨objects, unions, scalars, hobjects, hunions, hscalars, rfl⟩ := Sdl.Document.of_typeMap? h
  rw [classifyDocument, Logged.andThen_of_ok (value_classifyObjects hobjects .empty)]
  -- Of the loops behind the objects, none says anything about aliases.
  simp only [Logged.events_bind, Logged.events_pure, aliasComplaints_append,
    aliasComplaints_classifyObjects hobjects, aliasComplaints_classifyUnions,
    aliasComplaints_warnOnCollisions, List.nil_append, List.append_nil]
  have hreport : ∀ objects unions scalars, aliasComplaints
      (Logged.emit (.classified objects unions scalars)).events = [] := fun _ _ _ => by
    simp [Logged.emit, aliasComplaints, Event.message]
  rw [hreport, List.append_nil, Sdl.Document.aliasEvents]

theorem aliasComplaints_exampleValues (generator : ExampleGenerator) (d : Sdl.Document)
    (config : Config) (m : TypeMap) (sdl : String) :
    aliasComplaints (exampleValues generator d config m sdl).events =
      aliasComplaints (generator d config m).events := by
  cases h : (generator d config m).value with
  | ok values =>
    rw [exampleValues_of_ok h, aliasComplaints_append]
    simp [aliasComplaints, Event.message]
  | error message =>
    rw [exampleValues_of_error h, aliasComplaints_append]
    simp [aliasComplaints, Event.message]

/-! ## Where a field comes from -/

theorem Sdl.Document.exists_field {d : Document} {naming : Naming} {m : TypeMap}
    (h : d.typeMap? naming = some m) {key name : String} {o : ObjectDef} {f : FieldDef}
    (ho : m.objects.get? key = some o) (hf : o.fields.get? name = some f) :
    ∃ o' ∈ d.objects, ∃ f' ∈ o'.fields, o'.name.map naming = some key ∧ f'.name = some name ∧
      f.aliasFor = f'.aliasFor.value ∧ f.isReference = f'.isReference := by
  obtain ⟨objects, unions, scalars, hobjects, hunions, hscalars, rfl⟩ := of_typeMap? h
  have hobject := forall_of_mapM (P := fun e => ∃ o' ∈ d.objects, o'.keyed? naming = some e)
    hobjects (fun o' ho' _ he => ⟨o', ho', he⟩) (key, o)
    (OrderedMap.mem_of_mem_ofList ((OrderedMap.mem_entries_iff _).2 ho))
  obtain ⟨o', ho', hkeyed⟩ := hobject
  obtain ⟨raw, fields, hraw, hfields, heq⟩ := ObjectType.of_keyed? hkeyed
  cases heq
  have hfield := forall_of_mapM (P := fun e => ∃ f' ∈ o'.fields, f'.keyed? = some e)
    hfields (fun f' hf' _ he => ⟨f', hf', he⟩) (name, f)
    (OrderedMap.mem_of_mem_ofList ((OrderedMap.mem_entries_iff _).2 hf))
  obtain ⟨f', hf', hkeyed'⟩ := hfield
  obtain ⟨name', type, hname, _, heq⟩ := FieldDefinition.of_keyed? hkeyed'
  cases heq
  exact ⟨o', ho', f', hf', by rw [hraw]; rfl, hname, rfl, rfl⟩

/-! ## Directives that do not count -/

namespace Sdl

/-- A field with the directives that govern it, and none on its arguments. -/
def AnnotatedField.governing (f : AnnotatedField) : AnnotatedField where
  field := { f.field with directives := Sdl.governing f.field.directives }
  inputs := f.inputs.map fun input => { input with directives := [] }

def AnnotatedDefinition.governing : AnnotatedDefinition → AnnotatedDefinition
  | object o => object { o with directives := [], fields := o.fields.map (·.governing) }
  | other definition => other definition

theorem AnnotatedField.keyed?_governing (f : AnnotatedField) :
    f.governing.field.keyed? = f.field.keyed? := by
  obtain ⟨halias, hreference⟩ := f.field.keeps_governing
  rw [FieldDefinition.keyed?, FieldDefinition.keyed?, governing, halias, hreference]

theorem AnnotatedObject.keyed?_governing (naming : Naming) (o : AnnotatedObject)
    (own : List Directive) :
    (AnnotatedObject.mk o.name o.interfaces own (o.fields.map (·.governing))).erase.keyed? naming =
      o.erase.keyed? naming := by
  have hfields : ((o.fields.map (·.governing)).map (·.field)).mapM FieldDefinition.keyed? =
      (o.fields.map (·.field)).mapM FieldDefinition.keyed? := by
    rw [List.map_map, List.mapM_map, List.mapM_map]
    exact congrArg (List.mapM · o.fields) (funext fun f => f.keyed?_governing)
  rw [ObjectType.keyed?, ObjectType.keyed?, erase, erase, hfields]

section Document

variable (ds : List AnnotatedDefinition)

theorem mapM_objects_governing (naming : Naming) :
    (Document.mk ((ds.map (·.governing)).map (·.erase))).objects.mapM (ObjectType.keyed? naming) =
      (Document.mk (ds.map (·.erase))).objects.mapM (ObjectType.keyed? naming) := by
  induction ds with
  | nil => rfl
  | cons definition rest ih =>
    rw [Document.objects, Document.objects] at ih
    cases definition with
    | object o =>
      change (AnnotatedObject.erase _ :: _).mapM _ = (o.erase :: _).mapM _
      rw [List.mapM_cons, List.mapM_cons, o.keyed?_governing naming, ih]
    | other definition =>
      cases definition with
      | object o =>
        change (o :: _).mapM _ = (o :: _).mapM _
        rw [List.mapM_cons, List.mapM_cons, ih]
      | union | scalar | other => exact ih

/-- What is picked from the definitions of other kinds is not touched. -/
theorem filterMap_governing {α : Type} {pick : Definition → Option α}
    (hpick : ∀ o, pick (.object o) = none) :
    ((ds.map (·.governing)).map (·.erase)).filterMap pick =
      (ds.map (·.erase)).filterMap pick := by
  rw [List.map_map, List.filterMap_map, List.filterMap_map]
  refine congrArg (List.filterMap · ds) (funext fun definition => ?_)
  cases definition with
  | object o => exact (hpick _).trans (hpick _).symm
  | other definition => rfl

theorem typeMap?_governing (naming : Naming) :
    (Document.mk ((ds.map (·.governing)).map (·.erase))).typeMap? naming =
      (Document.mk (ds.map (·.erase))).typeMap? naming := by
  have hunions : (Document.mk ((ds.map (·.governing)).map (·.erase))).unions =
      (Document.mk (ds.map (·.erase))).unions := filterMap_governing ds fun _ => rfl
  have hscalars : (Document.mk ((ds.map (·.governing)).map (·.erase))).scalars =
      (Document.mk (ds.map (·.erase))).scalars := filterMap_governing ds fun _ => rfl
  rw [Document.typeMap?, Document.typeMap?, mapM_objects_governing, hunions, hscalars]

end Document

/-- Texts with the same governing directives denote the same map. -/
theorem typeMap?_of_governing {sdl sdl' : String} (naming : Naming)
    (h : (parseAnnotated sdl').map (·.governing) = (parseAnnotated sdl).map (·.governing)) :
    (parse sdl').1.typeMap? naming = (parse sdl).1.typeMap? naming := by
  rw [parse_eq_erase, parse_eq_erase, ← typeMap?_governing, h, typeMap?_governing]

end Sdl

/-- For every accepted text, the first `jsonAlias` of a field and its first `for` decide on the
alias, and any `reference` on that. A value that is no string is complained about once. Directives
without a say may be edited at will, in a field or in the text, where also those on arguments and
object types have none. -/
theorem classify_governed_by_first (c : Classifier) (config : Config) {sdl : String}
    (accepted : (Sdl.parse sdl).2 = []) :
    ∃ m, (c.classify sdl config).value = .ok m ∧
      (∀ o ∈ (Sdl.parse sdl).1.objects, ∀ f ∈ o.fields,
        ∃ name, f.name = some name ∧ f.Governed name) ∧
      (∀ key name o f, m.objects.get? key = some o → o.fields.get? name = some f →
        ∃ o' ∈ (Sdl.parse sdl).1.objects, ∃ f' ∈ o'.fields, o'.name.map c.naming = some key ∧
          f'.name = some name ∧ f.aliasFor = f'.aliasFor.value ∧
          f.isReference = f'.isReference) ∧
      aliasComplaints (c.classify sdl config).events =
        (Sdl.parse sdl).1.objects.flatMap (fun o => o.fields.flatMap (·.aliasFor.events)) ++
          aliasComplaints
            (c.examples (Sdl.parse sdl).1 config { m with exampleValues := .empty }).events ∧
      (∀ (f : Sdl.FieldDefinition) ds,
        (Relation.EqvGen Sdl.AliasEdit f.directives ds →
          { f with directives := ds }.aliasFor = f.aliasFor) ∧
        (Relation.EqvGen (Sdl.DirectiveEdit "reference") f.directives ds →
          { f with directives := ds }.isReference = f.isReference)) ∧
      ∀ sdl' config' m', (Sdl.parse sdl').2 = [] →
        (parseAnnotated sdl').map (·.governing) = (parseAnnotated sdl).map (·.governing) →
        (c.classify sdl' config').value = .ok m' →
        m'.objects = m.objects ∧ m'.unions = m.unions ∧ m'.scalars = m.scalars := by
  have hcomplete := Sdl.complete_of_clean accepted
  obtain ⟨m, hm⟩ := hcomplete.typeMap? c.naming
  have hempty : m.exampleValues = .empty := by
    obtain ⟨objects, unions, scalars, _, _, _, rfl⟩ := Sdl.Document.of_typeMap? hm
    rfl
  have hbare : { m with exampleValues := .empty } = m := by rw [← hempty]
  refine ⟨_, value_classify c config accepted hm, ?_, ?_, ?_, ?_, ?_⟩
  · intro o ho f hf
    obtain ⟨⟨name, hname, _⟩, _⟩ := (hcomplete _ (Sdl.Document.mem_objects.1 ho)).2 f hf
    exact ⟨name, hname, f.governed hname⟩
  · intro key name o f ho hf
    exact Sdl.Document.exists_field hm ho hf
  · rw [classify_eq_of_typeMap? c config accepted hm, aliasComplaints_append,
      aliasComplaints_classifyDocument hm, aliasComplaints_exampleValues, hbare]
    rfl
  · intro f ds
    exact ⟨f.aliasFor_of_edits, f.isReference_of_edits⟩
  · intro sdl' config' m' accepted' hsame hm'
    have hm₁ := hm
    rw [← Sdl.typeMap?_of_governing c.naming hsame] at hm₁
    rw [value_classify c config' accepted' hm₁] at hm'
    cases hm'
    exact ⟨rfl, rfl, rfl⟩

/-- A value that is no string, with a string behind it and others on the argument and the type. -/
theorem governed_by_first_number :
    let sdl := "type T @jsonAlias(for:\"a\")\x7bf(x:Int @jsonAlias(for:\"b\")):X @b " ++
      "@jsonAlias(for:1) @jsonAlias(for:\"c\") @reference\x7d"
    let bare := "type T\x7bf(x:Int):X @reference @jsonAlias(for:1)\x7d"
    let config : Config := ⟨"p", "d", "a", none, none, none, none⟩
    ∃ m, (Classifier.plain.classify sdl config).value = .ok m ∧
      aliasComplaints (Classifier.plain.classify sdl config).events = [.aliasIgnored "f" "1"] ∧
      ∀ m', (Classifier.plain.classify bare config).value = .ok m' → m'.objects = m.objects := by
  intro sdl bare config
  have accepted : (Sdl.parse sdl).2 = [] := by decide +kernel
  have hbare : (Sdl.parse bare).2 = [] := by decide +kernel
  have hsame : (parseAnnotated bare).map (·.governing) =
      (parseAnnotated sdl).map (·.governing) := by
    decide +kernel
  have hcomplaints : (Sdl.parse sdl).1.objects.flatMap
      (fun o => o.fields.flatMap (·.aliasFor.events)) = [.aliasIgnored "f" "1"] := by
    decide +kernel
  obtain ⟨m, hm, _, _, hevents, _, htext⟩ :=
    classify_governed_by_first Classifier.plain config accepted
  refine ⟨m, hm, ?_, fun m' hm' => (htext bare config m' hbare hsame hm').1⟩
  rw [hevents, hcomplaints]
  rfl

end SchemaCatalog
