import SchemaCatalog.Classification
import SchemaCatalog.Proofs.OrderedMap
import SchemaCatalog.Proofs.Sdl.Completeness

/-!
# SchemaCatalog.Proofs.Classification.Denotation

What type map a tree denotes, in one formula.

`Document.typeMap?` needs every name and every type that counts to be there. When they are, the
classification arrives at just this map (`value_classifyDocument`), whose proof follows the loops
over fields, objects and unions; and in a complete tree they are all there
(`Document.Complete.typeMap?`).
-/

namespace SchemaCatalog

/-! ## The formula -/

namespace Sdl

/-- The type that a tree denotes when no part of it is missing. -/
def TypeNode.ref? : TypeNode → Option TypeRef
  | missing => none
  | named name => some (.named name)
  | list item => item.ref?.map .list
  | nonNull inner => inner.ref?.map .nonNull

def FieldDefinition.keyed? (f : FieldDefinition) : Option (String × FieldDef) := do
  let name ← f.name
  let type ← f.type.ref?
  return (name, ⟨type, f.aliasFor.value, f.isReference⟩)

def ObjectType.keyed? (naming : Naming) (o : ObjectType) : Option (String × ObjectDef) := do
  let raw ← o.name
  let fields ← o.fields.mapM FieldDefinition.keyed?
  return (naming raw, ⟨naming raw, decide (documentInterface ∈ o.interfaces), .lastWins fields⟩)

def UnionType.keyed? (naming : Naming) (u : UnionType) : Option (String × UnionDef) := do
  let raw ← u.name
  return (naming raw, ⟨naming raw, u.members⟩)

/-- The type map of a document, without examples. -/
def Document.typeMap? (naming : Naming) (d : Document) : Option TypeMap := do
  let objects ← d.objects.mapM (ObjectType.keyed? naming)
  let unions ← d.unions.mapM (UnionType.keyed? naming)
  let scalars ← d.scalars.mapM ScalarType.name
  return ⟨builtInScalars ++ scalars, .lastWins unions, .lastWins objects, .empty⟩

end Sdl

/-! ## Lists of parts -/

section MapM

variable {α β : Type} {f : α → Option β}

theorem mapM_cons_eq_some {a : α} {as : List α} {bs : List β} :
    (a :: as).mapM f = some bs ↔ ∃ b bs', f a = some b ∧ as.mapM f = some bs' ∧ bs = b :: bs' := by
  simp only [List.mapM_cons, Option.bind_eq_bind, Option.bind_eq_some_iff]
  constructor
  · rintro ⟨b, hb, bs', hbs', h⟩
    cases h
    exact ⟨b, bs', hb, hbs', rfl⟩
  · rintro ⟨b, bs', hb, hbs', rfl⟩
    exact ⟨b, hb, bs', hbs', rfl⟩

theorem exists_mapM_eq_some {as : List α} (h : ∀ a ∈ as, ∃ b, f a = some b) :
    ∃ bs, as.mapM f = some bs := by
  induction as with
  | nil => exact ⟨[], rfl⟩
  | cons a as ih =>
    obtain ⟨b, hb⟩ := h a List.mem_cons_self
    obtain ⟨bs, hbs⟩ := ih fun a' ha' => h a' (List.mem_cons_of_mem _ ha')
    exact ⟨b :: bs, mapM_cons_eq_some.2 ⟨b, bs, hb, hbs, rfl⟩⟩

theorem exists_mem_of_mapM {as : List α} {bs : List β} (h : as.mapM f = some bs) {a : α}
    (ha : a ∈ as) : ∃ b ∈ bs, f a = some b := by
  induction as generalizing bs with
  | nil => cases ha
  | cons a' as ih =>
    obtain ⟨b, bs', hb, hbs, rfl⟩ := mapM_cons_eq_some.1 h
    rcases List.mem_cons.1 ha with rfl | ha
    · exact ⟨b, List.mem_cons_self, hb⟩
    · obtain ⟨b', hb', hf⟩ := ih hbs ha
      exact ⟨b', List.mem_cons_of_mem _ hb', hf⟩

theorem forall_of_mapM {as : List α} {bs : List β} (h : as.mapM f = some bs) {P : β → Prop}
    (hf : ∀ a ∈ as, ∀ b, f a = some b → P b) : ∀ b ∈ bs, P b := by
  induction as generalizing bs with
  | nil => cases h; simp
  | cons a as ih =>
    obtain ⟨b, bs', hb, hbs, rfl⟩ := mapM_cons_eq_some.1 h
    obtain ⟨ha, has⟩ := List.forall_mem_cons.1 hf
    exact List.forall_mem_cons.2 ⟨ha b hb, ih hbs has⟩

end MapM

/-! ## The classification arrives at the formula -/

namespace Sdl

theorem TypeNode.eq_node_of_ref? {n : TypeNode} {t : TypeRef} (h : n.ref? = some t) :
    n = t.node := by
  induction n generalizing t with
  | missing => cases h
  | named name => cases h; rfl
  | list item ih =>
    obtain ⟨item', hitem, rfl⟩ := Option.map_eq_some_iff.1 h
    rw [ih hitem]
    rfl
  | nonNull inner ih =>
    obtain ⟨inner', hinner, rfl⟩ := Option.map_eq_some_iff.1 h
    rw [ih hinner]
    rfl

theorem TypeNode.ref?_node (t : TypeRef) : t.node.ref? = some t := by
  induction t with
  | named name => rfl
  | list item ih => rw [TypeRef.node, ref?, ih]; rfl
  | nonNull inner ih => rw [TypeRef.node, ref?, ih]; rfl

end Sdl

theorem value_andThen {ε α β : Type} {m : Logged (Except ε α)} {a : α} (h : m.value = .ok a)
    (f : α → Logged (Except ε β)) : (m.andThen f).value = (f a).value := by
  obtain ⟨value, events⟩ := m
  cases h
  rfl

theorem value_require {α : Type} {a? : Option α} {a : α} (h : a? = some a) (part : String) :
    (require part a?).value = .ok a := by
  rw [h]
  rfl

namespace Sdl

theorem FieldDefinition.of_keyed? {f : FieldDefinition} {entry : String × FieldDef}
    (h : f.keyed? = some entry) : ∃ name type, f.name = some name ∧ f.type = type.node ∧
      entry = (name, ⟨type, f.aliasFor.value, f.isReference⟩) := by
  obtain ⟨name, hname, h⟩ := Option.bind_eq_some_iff.1 h
  obtain ⟨type, htype, h⟩ := Option.bind_eq_some_iff.1 h
  cases h
  exact ⟨name, type, hname, TypeNode.eq_node_of_ref? htype, rfl⟩

theorem ObjectType.of_keyed? {o : ObjectType} {naming : Naming} {entry : String × ObjectDef}
    (h : o.keyed? naming = some entry) : ∃ raw fields, o.name = some raw ∧
      o.fields.mapM FieldDefinition.keyed? = some fields ∧
      entry = (naming raw, ⟨naming raw, isDocumentType o, .ofList fields⟩) := by
  obtain ⟨raw, hraw, h⟩ := Option.bind_eq_some_iff.1 h
  obtain ⟨fields, hfields, h⟩ := Option.bind_eq_some_iff.1 h
  cases h
  refine ⟨raw, fields, hraw, hfields, ?_⟩
  rw [isDocumentType, List.contains_eq_mem, OrderedMap.ofList_eq_lastWins]

theorem UnionType.of_keyed? {u : UnionType} {naming : Naming} {entry : String × UnionDef}
    (h : u.keyed? naming = some entry) :
    ∃ raw, u.name = some raw ∧ entry = (naming raw, ⟨naming raw, u.members⟩) := by
  obtain ⟨raw, hraw, h⟩ := Option.bind_eq_some_iff.1 h
  cases h
  exact ⟨raw, hraw, rfl⟩

theorem Document.of_typeMap? {d : Document} {naming : Naming} {m : TypeMap}
    (h : d.typeMap? naming = some m) : ∃ objects unions scalars,
      d.objects.mapM (ObjectType.keyed? naming) = some objects ∧
      d.unions.mapM (UnionType.keyed? naming) = some unions ∧
      d.scalars.mapM ScalarType.name = some scalars ∧
      m = ⟨builtInScalars ++ scalars, .ofList unions, .ofList objects, .empty⟩ := by
  obtain ⟨objects, hobjects, h⟩ := Option.bind_eq_some_iff.1 h
  obtain ⟨unions, hunions, h⟩ := Option.bind_eq_some_iff.1 h
  obtain ⟨scalars, hscalars, h⟩ := Option.bind_eq_some_iff.1 h
  cases h
  refine ⟨objects, unions, scalars, hobjects, hunions, hscalars, ?_⟩
  rw [OrderedMap.ofList_eq_lastWins, OrderedMap.ofList_eq_lastWins]

end Sdl

theorem value_classifyField {f : Sdl.FieldDefinition} {entry : String × FieldDef}
    (h : f.keyed? = some entry) : (classifyField f).value = .ok entry := by
  obtain ⟨name, type, hname, htype, rfl⟩ := Sdl.FieldDefinition.of_keyed? h
  rw [classifyField, value_andThen (value_require hname _), htype, TypeRef.ofNode_node]
  rfl

theorem value_classifyFields {fs : List Sdl.FieldDefinition} {entries : List (String × FieldDef)}
    (h : fs.mapM Sdl.FieldDefinition.keyed? = some entries) (fields : OrderedMap FieldDef) :
    (classifyFields fs fields).value =
      .ok (entries.foldl (fun m e => m.insert e.1 e.2) fields) := by
  induction fs generalizing fields entries with
  | nil => cases h; rfl
  | cons f rest ih =>
    obtain ⟨entry, entries', hentry, hrest, rfl⟩ := mapM_cons_eq_some.1 h
    rw [classifyFields, value_andThen (value_classifyField hentry)]
    exact ih hrest _

theorem value_classifyObject {naming : Naming} {o : Sdl.ObjectType} {entry : String × ObjectDef}
    (h : o.keyed? naming = some entry) :
    (classifyObject naming o).value = .ok entry.2 ∧ entry.2.name = entry.1 := by
  obtain ⟨raw, fields, hraw, hfields, rfl⟩ := Sdl.ObjectType.of_keyed? h
  refine ⟨?_, rfl⟩
  rw [classifyObject, value_andThen (value_require hraw _),
    value_andThen (value_classifyFields hfields .empty)]
  rfl

theorem value_classifyObjects {naming : Naming} {os : List Sdl.ObjectType}
    {entries : List (String × ObjectDef)}
    (h : os.mapM (Sdl.ObjectType.keyed? naming) = some entries) (objects : OrderedMap ObjectDef) :
    (classifyObjects naming os objects).value =
      .ok (entries.foldl (fun m e => m.insert e.1 e.2) objects) := by
  induction os generalizing objects entries with
  | nil => cases h; rfl
  | cons o rest ih =>
    obtain ⟨entry, entries', hentry, hrest, rfl⟩ := mapM_cons_eq_some.1 h
    obtain ⟨hvalue, hname⟩ := value_classifyObject hentry
    rw [classifyObjects, value_andThen hvalue, Logged.value_bind, ih hrest, hname]
    rfl

theorem value_classifyUnions {naming : Naming} {us : List Sdl.UnionType}
    {entries : List (String × UnionDef)}
    (h : us.mapM (Sdl.UnionType.keyed? naming) = some entries) (unions : OrderedMap UnionDef) :
    (classifyUnions naming us unions).value =
      entries.foldl (fun m e => m.insert e.1 e.2) unions := by
  induction us generalizing unions entries with
  | nil => cases h; rfl
  | cons u rest ih =>
    obtain ⟨entry, entries', hentry, hrest, rfl⟩ := mapM_cons_eq_some.1 h
    obtain ⟨raw, hraw, rfl⟩ := Sdl.UnionType.of_keyed? hentry
    rw [classifyUnions, hraw]
    exact ih hrest _

theorem classifyScalars_eq {ss : List Sdl.ScalarType} {names : List String}
    (h : ss.mapM Sdl.ScalarType.name = some names) :
    classifyScalars ss = builtInScalars ++ names := by
  have hnames : ss.filterMap (·.name) = names := by
    induction ss generalizing names with
    | nil => cases h; rfl
    | cons s rest ih =>
      obtain ⟨name, names', hname, hrest, rfl⟩ := mapM_cons_eq_some.1 h
      rw [List.filterMap_cons, hname, ih hrest]
  rw [classifyScalars, hnames]

theorem value_classifyDocument {naming : Naming} {d : Sdl.Document} {m : TypeMap}
    (h : d.typeMap? naming = some m) : (classifyDocument naming d).value = .ok m := by
  obtain ⟨objects, unions, scalars, hobjects, hunions, hscalars, rfl⟩ := Sdl.Document.of_typeMap? h
  rw [classifyDocument, value_andThen (value_classifyObjects hobjects .empty)]
  simp only [Logged.value_bind, Logged.value_pure, value_classifyUnions hunions,
    classifyScalars_eq hscalars]
  rfl

/-! ## Texts -/

theorem parseSchema_of_clean {sdl : String} (h : (Sdl.parse sdl).2 = []) :
    parseSchema sdl = pure (.ok (Sdl.parse sdl).1) := by
  unfold parseSchema
  split
  · rename_i document heq
    rw [heq]
  · rename_i errors hne heq
    rw [heq] at h
    exact absurd h hne

/-- The examples of a generator, whatever it emits. -/
def generated (generator : ExampleGenerator) (d : Sdl.Document) (config : Config) (m : TypeMap) :
    OrderedMap Json :=
  (generator d config m).value.toOption.getD .empty

theorem value_exampleValues (generator : ExampleGenerator) (d : Sdl.Document) (config : Config)
    (m : TypeMap) (sdl : String) :
    (exampleValues generator d config m sdl).value = generated generator d config m := by
  rw [exampleValues, Logged.value_bind, generated]
  cases (generator d config m).value with
  | ok values => rfl
  | error message => rfl

theorem value_classify (c : Classifier) (config : Config) {sdl : String} {m : TypeMap}
    (hclean : (Sdl.parse sdl).2 = []) (hm : (Sdl.parse sdl).1.typeMap? c.naming = some m) :
    (c.classify sdl config).value =
      .ok { m with exampleValues := generated c.examples (Sdl.parse sdl).1 config m } := by
  rw [Classifier.classify, parseSchema_of_clean hclean, value_andThen (Logged.value_pure _),
    value_andThen (value_classifyDocument hm), Logged.value_bind, value_exampleValues]
  rfl

/-! ## Complete trees denote a map -/

namespace Sdl

variable {text : String}

theorem FieldDefinition.Complete.keyed? {f : FieldDefinition} (h : f.Complete text) :
    ∃ entry, f.keyed? = some entry := by
  obtain ⟨⟨name, hname, _⟩, t, ht⟩ := h
  refine ⟨(name, ⟨t, f.aliasFor.value, f.isReference⟩), ?_⟩
  rw [FieldDefinition.keyed?, hname, ht.node, TypeNode.ref?_node]
  rfl

theorem Definition.Complete.objectKeyed? {o : ObjectType} (h : (Definition.object o).Complete text)
    (naming : Naming) : ∃ entry, o.keyed? naming = some entry := by
  obtain ⟨⟨raw, hraw, _⟩, hfields⟩ := h
  obtain ⟨fields, hfs⟩ := exists_mapM_eq_some fun f hf => (hfields f hf).keyed?
  rw [ObjectType.keyed?, hraw, hfs]
  exact ⟨_, rfl⟩

theorem Definition.Complete.unionKeyed? {u : UnionType} (h : (Definition.union u).Complete text)
    (naming : Naming) : ∃ entry, u.keyed? naming = some entry := by
  obtain ⟨raw, hraw, _⟩ := h
  rw [UnionType.keyed?, hraw]
  exact ⟨_, rfl⟩

theorem Definition.Complete.scalarName {s : ScalarType} (h : (Definition.scalar s).Complete text) :
    ∃ name, s.name = some name := by
  obtain ⟨name, hname, _⟩ := h
  exact ⟨name, hname⟩

section Groups

variable {d : Document}

/-- Each group holds the definitions of one constructor. -/
theorem mem_filterMap_iff {α β : Type} {f : α → Option β} {make : β → α} {as : List α} {b : β}
    (hmake : f (make b) = some b) (honly : ∀ a, f a = some b → a = make b) :
    b ∈ as.filterMap f ↔ make b ∈ as := by
  constructor
  · intro h
    obtain ⟨a, ha, hf⟩ := List.mem_filterMap.1 h
    rw [← honly a hf]
    exact ha
  · exact fun h => List.mem_filterMap.2 ⟨_, h, hmake⟩

theorem Document.mem_objects {o : ObjectType} : o ∈ d.objects ↔ .object o ∈ d.definitions :=
  mem_filterMap_iff rfl fun a h => by cases a <;> cases h; rfl

theorem Document.mem_unions {u : UnionType} : u ∈ d.unions ↔ .union u ∈ d.definitions :=
  mem_filterMap_iff rfl fun a h => by cases a <;> cases h; rfl

theorem Document.mem_scalars {s : ScalarType} : s ∈ d.scalars ↔ .scalar s ∈ d.definitions :=
  mem_filterMap_iff rfl fun a h => by cases a <;> cases h; rfl

end Groups

theorem Document.Complete.typeMap? {d : Document} (h : d.Complete text) (naming : Naming) :
    ∃ m, d.typeMap? naming = some m := by
  obtain ⟨objects, hobjects⟩ := exists_mapM_eq_some fun o ho =>
    (h _ (Document.mem_objects.1 ho)).objectKeyed? naming
  obtain ⟨unions, hunions⟩ := exists_mapM_eq_some fun u hu =>
    (h _ (Document.mem_unions.1 hu)).unionKeyed? naming
  obtain ⟨scalars, hscalars⟩ := exists_mapM_eq_some fun s hs =>
    (h _ (Document.mem_scalars.1 hs)).scalarName
  rw [Document.typeMap?, hobjects, hunions, hscalars]
  exact ⟨_, rfl⟩

end Sdl

end SchemaCatalog
