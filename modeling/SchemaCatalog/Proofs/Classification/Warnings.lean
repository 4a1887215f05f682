import SchemaCatalog.Proofs.Classification.Denotation

/-!
# SchemaCatalog.Proofs.Classification.Warnings

What the classification warns about, event by event.

A map that is written to again and again never loses a definition without saying so: after any
number of insertions, the entries and the warnings together are as many as the definitions
(`size_add_repeats`). The loops over objects and unions warn at the names that have come before
(`repeatsAfter`), and the two scans for names of several kinds see the maps that the loops leave.
Parts of a definition, its fields and their aliases, never warn.
-/

namespace SchemaCatalog

/-! ## Warnings of a computation -/

namespace Logged

variable {α β ε : Type}

/-- The warnings among the events of a computation, in order. -/
def warnings (m : Logged α) : List Event := m.events.filter (·.level = .warn)

@[simp] theorem warnings_pure (a : α) : (pure a : Logged α).warnings = [] := rfl

@[simp] theorem warnings_bind (m : Logged α) (f : α → Logged β) :
    (m >>= f).warnings = m.warnings ++ (f m.value).warnings := by
  simp [warnings]

theorem warnings_emit (event : Event) :
    (emit event).warnings = if event.level = .warn then [event] else [] := by
  by_cases h : event.level = .warn <;> simp [warnings, emit, h]

theorem warnings_andThen {m : Logged (Except ε α)} {a : α} (h : m.value = .ok a)
    (f : α → Logged (Except ε β)) : (m.andThen f).warnings = m.warnings ++ (f a).warnings := by
  obtain ⟨value, events⟩ := m
  cases h
  simp [warnings, andThen]

/-- What is made of quiet parts is quiet, whether it arrives or not. -/
theorem warnings_andThen_nil {m : Logged (Except ε α)} {f : α → Logged (Except ε β)}
    (hm : m.warnings = []) (hf : ∀ a, (f a).warnings = []) : (m.andThen f).warnings = [] := by
  obtain ⟨value, events⟩ := m
  cases value with
  | error e => exact hm
  | ok a =>
    have hnext := hf a
    simp only [warnings, andThen, List.filter_append] at hm hnext ⊢
    rw [hm, hnext, List.append_nil]

end Logged

/-! ## Names that come again -/

/-- The names that have come before, each time they come again, given the different names before
the list. -/
def repeatsAfter (seen : List String) : List String → List String
  | [] => []
  | name :: rest =>
    if name ∈ seen then name :: repeatsAfter seen rest else repeatsAfter (seen ++ [name]) rest

def repeats (names : List String) : List String := repeatsAfter [] names

theorem count_repeatsAfter (k : String) (names seen : List String) :
    (repeatsAfter seen names).count k =
      if k ∈ seen then names.count k else names.count k - 1 := by
  induction names generalizing seen with
  | nil => simp [repeatsAfter]
  | cons name rest ih =>
    by_cases hname : name ∈ seen
    · rw [repeatsAfter, if_pos hname, List.count_cons, ih, List.count_cons]
      by_cases hk : k ∈ seen
      · simp [hk]
      · have hne : name ≠ k := fun e => hk (e ▸ hname)
        simp [hk, hne]
    · rw [repeatsAfter, if_neg hname, ih, List.count_cons]
      by_cases hk : k = name
      · subst hk
        simp [hname]
      · have hne : name ≠ k := fun e => hk e.symm
        simp [hk, hne]

theorem count_repeats (k : String) (names : List String) :
    (repeats names).count k = names.count k - 1 := by
  rw [repeats, count_repeatsAfter, if_neg List.not_mem_nil]

theorem repeats_eq_nil_iff (names : List String) : repeats names = [] ↔ names.Nodup := by
  rw [List.nodup_iff_count, List.eq_nil_iff_forall_not_mem]
  constructor
  · intro h k
    have hcount := List.count_eq_zero.2 (h k)
    rw [count_repeats] at hcount
    omega
  · intro h k
    rw [← List.count_eq_zero, count_repeats]
    have := h k
    omega

namespace OrderedMap

variable {α : Type}

theorem size_eq (m : OrderedMap α) : m.size = m.keys.length := by
  simp [size, keys]

/-- Entries that are written add to the size or repeat a name. -/
theorem size_add_repeats (entries : List (String × α)) (m : OrderedMap α) :
    (entries.foldl (fun m e => m.insert e.1 e.2) m).size +
      (repeatsAfter m.keys (entries.map (·.1))).length = m.size + entries.length := by
  induction entries generalizing m with
  | nil => rfl
  | cons entry rest ih =>
    have hrest := ih (m.insert entry.1 entry.2)
    rw [size_eq (m.insert _ _), keys_insert] at hrest
    rw [List.foldl_cons, List.map_cons, repeatsAfter, size_eq m]
    by_cases h : entry.1 ∈ m.keys
    · simp only [h, if_true, List.length_cons] at hrest ⊢
      omega
    · simp only [h, if_false, List.length_cons, List.length_append, List.length_nil] at hrest ⊢
      omega

end OrderedMap

/-! ## What the loops warn about -/

theorem warnings_warnIf {event : Event} (hlevel : event.level = .warn) (taken : Bool) :
    (warnIf taken event).warnings = if taken then [event] else [] := by
  cases taken with
  | true => simp [warnIf, Logged.warnings_emit, hlevel]
  | false => rfl

theorem warnings_require {α : Type} (part : String) (a? : Option α) :
    (require part a?).warnings = [] := by
  cases a? <;> rfl

theorem warnings_aliasFor (f : Sdl.FieldDefinition) : f.aliasFor.warnings = [] := by
  rw [Sdl.FieldDefinition.aliasFor]
  split
  · rfl
  · split <;> rfl

theorem warnings_classifyField (f : Sdl.FieldDefinition) : (classifyField f).warnings = [] := by
  refine Logged.warnings_andThen_nil (warnings_require _ _) fun name => ?_
  refine Logged.warnings_andThen_nil rfl fun type => ?_
  simp [warnings_aliasFor]

theorem warnings_classifyFields (fs : List Sdl.FieldDefinition) (fields : OrderedMap FieldDef) :
    (classifyFields fs fields).warnings = [] := by
  induction fs generalizing fields with
  | nil => rfl
  | cons f rest ih =>
    exact Logged.warnings_andThen_nil (warnings_classifyField f) fun entry => ih _

theorem warnings_classifyObject (naming : Naming) (o : Sdl.ObjectType) :
    (classifyObject naming o).warnings = [] := by
  refine Logged.warnings_andThen_nil (warnings_require _ _) fun raw => ?_
  exact Logged.warnings_andThen_nil (warnings_classifyFields _ _) fun fields => rfl

theorem warnings_classifyObjects {naming : Naming} {os : List Sdl.ObjectType}
    {entries : List (String × ObjectDef)}
    (h : os.mapM (Sdl.ObjectType.keyed? naming) = some entries) (objects : OrderedMap ObjectDef) :
    (classifyObjects naming os objects).warnings =
      (repeatsAfter objects.keys (entries.map (·.1))).map .objectRedefined := by
  induction os generalizing objects entries with
  | nil => cases h; rfl
  | cons o rest ih =>
    obtain ⟨entry, entries', hentry, hrest, rfl⟩ := mapM_cons_eq_some.1 h
    obtain ⟨hvalue, hname⟩ := value_classifyObject hentry
    rw [classifyObjects, Logged.warnings_andThen hvalue, warnings_classifyObject, hname,
      Logged.warnings_bind, warnings_warnIf rfl, ih hrest, OrderedMap.keys_insert, List.map_cons,
      repeatsAfter]
    simp only [OrderedMap.contains_iff]
    by_cases hseen : entry.1 ∈ objects.keys <;> simp [hseen]

theorem warnings_classifyUnions {naming : Naming} {us : List Sdl.UnionType}
    {entries : List (String × UnionDef)}
    (h : us.mapM (Sdl.UnionType.keyed? naming) = some entries) (unions : OrderedMap UnionDef) :
    (classifyUnions naming us unions).warnings =
      (repeatsAfter unions.keys (entries.map (·.1))).map .unionRedefined := by
  induction us generalizing unions entries with
  | nil => cases h; rfl
  | cons u rest ih =>
    obtain ⟨entry, entries', hentry, hrest, rfl⟩ := mapM_cons_eq_some.1 h
    obtain ⟨raw, hraw, rfl⟩ := Sdl.UnionType.of_keyed? hentry
    rw [classifyUnions, hraw]
    simp only
    rw [Logged.warnings_bind, warnings_warnIf rfl, ih hrest, OrderedMap.keys_insert, List.map_cons,
      repeatsAfter]
    simp only [OrderedMap.contains_iff]
    by_cases hseen : naming raw ∈ unions.keys <;> simp [hseen]

theorem warnings_warnEach {event : String → Event} (hlevel : ∀ name, (event name).level = .warn)
    (test : String → Bool) (names : List String) :
    (warnEach test event names).warnings = (names.filter test).map event := by
  induction names with
  | nil => rfl
  | cons name rest ih =>
    rw [warnEach, Logged.warnings_bind, warnings_warnIf (hlevel name), ih]
    by_cases h : test name = true <;> simp [h]

/-! ## The account of a document -/

namespace Sdl.Document

/-- The names of the object types, one for each definition. -/
def objectNames (naming : Naming) (d : Document) : List String :=
  d.objects.filterMap fun o => o.name.map naming

/-- The names of the unions, one for each definition. -/
def unionNames (naming : Naming) (d : Document) : List String :=
  d.unions.filterMap fun u => u.name.map naming

end Sdl.Document

/-- The names of unions that are objects too, then those of objects and of unions that are scalars
too. -/
def TypeMap.collisions (m : TypeMap) : List Event :=
  (m.unions.keys.filter (· ∈ m.objects.keys)).map .objectAndUnion ++
    (m.objects.keys.filter (· ∈ m.scalars)).map .scalarCollision ++
    (m.unions.keys.filter (· ∈ m.scalars)).map .scalarCollision

/-- What there is to warn about: the definitions that come again, and then the collisions. -/
def warningsAbout (naming : Naming) (d : Sdl.Document) (m : TypeMap) : List Event :=
  (repeats (d.objectNames naming)).map .objectRedefined ++
    (repeats (d.unionNames naming)).map .unionRedefined ++ m.collisions

/-- The warnings and the entries of a type map account for every definition. -/
structure WarningAccount (naming : Naming) (d : Sdl.Document) (m : TypeMap)
    (warnings : List Event) : Prop where
  /-- Every definition of an object but one has a warning. -/
  objectAgain : ∀ k ∈ m.objects.keys, warnings.count (.objectRedefined k) + 1 =
    d.objects.countP fun o => o.name.map naming = some k
  unionAgain : ∀ k ∈ m.unions.keys, warnings.count (.unionRedefined k) + 1 =
    d.unions.countP fun u => u.name.map naming = some k
  objectTotal : d.objects.length =
    m.objects.size + warnings.countP (·.message = "Object type defined more than once")
  unionTotal : d.unions.length =
    m.unions.size + warnings.countP (·.message = "Union type defined more than once")
  silent_iff : warnings = [] ↔
    (d.objectNames naming ++ d.unionNames naming).Nodup ∧
      ∀ name ∈ d.objectNames naming ++ d.unionNames naming, name ∉ m.scalars

section Entries

variable {α β : Type} {f : α → Option (String × β)} {as : List α} {entries : List (String × β)}

theorem map_fst_of_mapM {name : α → Option String}
    (hname : ∀ a entry, f a = some entry → name a = some entry.1)
    (h : as.mapM f = some entries) : entries.map (·.1) = as.filterMap name := by
  induction as generalizing entries with
  | nil => cases h; rfl
  | cons a rest ih =>
    obtain ⟨entry, entries', hentry, hrest, rfl⟩ := mapM_cons_eq_some.1 h
    rw [List.map_cons, ih hrest, List.filterMap_cons, hname a entry hentry]

theorem length_of_mapM (h : as.mapM f = some entries) : entries.length = as.length := by
  induction as generalizing entries with
  | nil => cases h; rfl
  | cons a rest ih =>
    obtain ⟨entry, entries', _, hrest, rfl⟩ := mapM_cons_eq_some.1 h
    rw [List.length_cons, List.length_cons, ih hrest]

end Entries

section Document

variable {naming : Naming} {d : Sdl.Document} {m : TypeMap}

theorem Sdl.Document.objectNames_eq {objects : List (String × ObjectDef)}
    (h : d.objects.mapM (ObjectType.keyed? naming) = some objects) :
    objects.map (·.1) = d.objectNames naming := by
  refine map_fst_of_mapM (fun o entry ho => ?_) h
  obtain ⟨raw, fields, hraw, _, rfl⟩ := ObjectType.of_keyed? ho
  rw [hraw]
  rfl

theorem Sdl.Document.unionNames_eq {unions : List (String × UnionDef)}
    (h : d.unions.mapM (UnionType.keyed? naming) = some unions) :
    unions.map (·.1) = d.unionNames naming := by
  refine map_fst_of_mapM (fun u entry hu => ?_) h
  obtain ⟨raw, hraw, rfl⟩ := UnionType.of_keyed? hu
  rw [hraw]
  rfl

theorem warnings_warnOnCollisions (m : TypeMap) : (warnOnCollisions m).warnings = m.collisions := by
  have hobject : m.objects.contains = fun name => decide (name ∈ m.objects.keys) := by
    funext name
    rw [Bool.eq_iff_iff, OrderedMap.contains_iff, decide_eq_true_iff]
  have hscalar : m.isScalar = fun name => decide (name ∈ m.scalars) := by
    funext name
    rw [TypeMap.isScalar, List.contains_eq_mem]
  rw [warnOnCollisions, Logged.warnings_bind, warnings_warnEach fun _ => rfl,
    warnings_warnEach fun _ => rfl, hobject, hscalar, TypeMap.collisions, List.filter_append,
    List.map_append, List.append_assoc]

theorem warnings_classifyDocument (h : d.typeMap? naming = some m) :
    (classifyDocument naming d).warnings = warningsAbout naming d m := by
  obtain ⟨objects, unions, scalars, hobjects, hunions, hscalars, rfl⟩ := Sdl.Document.of_typeMap? h
  rw [classifyDocument, Logged.warnings_andThen (value_classifyObjects hobjects .empty),
    warnings_classifyObjects hobjects, Sdl.Document.objectNames_eq hobjects, Logged.warnings_bind,
    warnings_classifyUnions hunions, Sdl.Document.unionNames_eq hunions,
    value_classifyUnions hunions, classifyScalars_eq hscalars]
  simp only [Logged.warnings_bind, warnings_warnOnCollisions, Logged.warnings_emit, Event.level]
  simp only [Logged.warnings_pure, warningsAbout, repeats, reduceCtorEq, if_false, List.append_nil,
    List.append_assoc]
  rfl

theorem count_objectRedefined (k : String) :
    (warningsAbout naming d m).count (.objectRedefined k) = (d.objectNames naming).count k - 1 := by
  rw [← count_repeats]
  simp [warningsAbout, TypeMap.collisions, List.count, List.countP_map, Function.comp_def,
    beq_eq_decide]

theorem count_unionRedefined (k : String) :
    (warningsAbout naming d m).count (.unionRedefined k) = (d.unionNames naming).count k - 1 := by
  rw [← count_repeats]
  simp [warningsAbout, TypeMap.collisions, List.count, List.countP_map, Function.comp_def,
    beq_eq_decide]

theorem countP_objectMessage : (warningsAbout naming d m).countP
    (·.message = "Object type defined more than once") =
      (repeats (d.objectNames naming)).length := by
  simp [warningsAbout, TypeMap.collisions, List.countP_map, Function.comp_def, Event.message]

theorem countP_unionMessage : (warningsAbout naming d m).countP
    (·.message = "Union type defined more than once") =
      (repeats (d.unionNames naming)).length := by
  simp [warningsAbout, TypeMap.collisions, List.countP_map, Function.comp_def, Event.message]

/-- The keys of a map that is written entry by entry are the names of the entries. -/
theorem mem_keys_ofList_iff {α : Type} {entries : List (String × α)} {names : List String}
    (h : entries.map (·.1) = names) (k : String) :
    k ∈ (OrderedMap.ofList entries).keys ↔ k ∈ names := by
  rw [OrderedMap.keys_ofList, h, List.mem_eraseDups]

theorem size_ofList_add_repeats {α : Type} {entries : List (String × α)} {names : List String}
    (h : entries.map (·.1) = names) :
    (OrderedMap.ofList entries).size + (repeats names).length = entries.length := by
  have htotal := OrderedMap.size_add_repeats entries .empty
  rw [h] at htotal
  exact htotal.trans (Nat.zero_add _)

theorem warningAccount (h : d.typeMap? naming = some m) :
    WarningAccount naming d m (warningsAbout naming d m) := by
  obtain ⟨objects, unions, scalars, hobjects, hunions, hscalars, rfl⟩ := Sdl.Document.of_typeMap? h
  have hobjectKeys := mem_keys_ofList_iff (Sdl.Document.objectNames_eq hobjects)
  have hunionKeys := mem_keys_ofList_iff (Sdl.Document.unionNames_eq hunions)
  constructor
  · intro k hk
    have hpos := List.count_pos_iff.2 ((hobjectKeys k).1 hk)
    rw [count_objectRedefined, Nat.sub_add_cancel hpos, Sdl.Document.objectNames,
      List.count_filterMap]
    simp only [beq_eq_decide]
  · intro k hk
    have hpos := List.count_pos_iff.2 ((hunionKeys k).1 hk)
    rw [count_unionRedefined, Nat.sub_add_cancel hpos, Sdl.Document.unionNames,
      List.count_filterMap]
    simp only [beq_eq_decide]
  · rw [countP_objectMessage, size_ofList_add_repeats (Sdl.Document.objectNames_eq hobjects),
      length_of_mapM hobjects]
  · rw [countP_unionMessage, size_ofList_add_repeats (Sdl.Document.unionNames_eq hunions),
      length_of_mapM hunions]
  · simp only [warningsAbout, TypeMap.collisions, List.append_eq_nil_iff, List.map_eq_nil_iff,
      repeats_eq_nil_iff, List.filter_eq_nil_iff, decide_eq_true_eq, hobjectKeys, hunionKeys,
      List.nodup_append, List.mem_append]
    constructor
    · rintro ⟨⟨hobject, hunion⟩, ⟨hboth, hobjectScalar⟩, hunionScalar⟩
      refine ⟨⟨hobject, hunion, fun o ho u hu e => hboth u hu (e ▸ ho)⟩, fun name hname => ?_⟩
      exact hname.elim (hobjectScalar name) (hunionScalar name)
    · rintro ⟨⟨hobject, hunion, hapart⟩, hscalar⟩
      exact ⟨⟨hobject, hunion⟩, ⟨fun u hu ho => hapart u ho u hu rfl,
        fun name hname => hscalar name (.inl hname)⟩, fun name hname => hscalar name (.inr hname)⟩

end Document

/-! ## Texts -/

theorem warnings_exampleValues (generator : ExampleGenerator) (d : Sdl.Document) (config : Config)
    (m : TypeMap) (sdl : String) :
    (exampleValues generator d config m sdl).warnings = (generator d config m).warnings := by
  rw [exampleValues, Logged.warnings_bind]
  cases (generator d config m).value with
  | ok values => simp [Logged.warnings_emit, Event.level]
  | error message => simp [Logged.warnings_emit, Event.level]

/-- For every accepted text the classification warns about what there is to warn about, in order,
and about nothing else; what a generator of examples has to warn about comes last. -/
theorem classify_warnings_of_accepted (c : Classifier) (config : Config) {sdl : String}
    (accepted : (Sdl.parse sdl).2 = []) :
    ∃ m, (c.classify sdl config).value = .ok m ∧
      (c.classify sdl config).warnings =
        warningsAbout c.naming (Sdl.parse sdl).1 m ++
          (c.examples (Sdl.parse sdl).1 config { m with exampleValues := .empty }).warnings ∧
      WarningAccount c.naming (Sdl.parse sdl).1 m (warningsAbout c.naming (Sdl.parse sdl).1 m) := by
  obtain ⟨m, hm⟩ := (Sdl.complete_of_clean accepted).typeMap? c.naming
  have hempty : { m with exampleValues := .empty } = m := by
    obtain ⟨objects, unions, scalars, _, _, _, rfl⟩ := Sdl.Document.of_typeMap? hm
    rfl
  have haccount := warningAccount hm
  refine ⟨_, value_classify c config accepted hm, ?_, ?_⟩
  · rw [Classifier.classify, parseSchema_of_clean accepted,
      Logged.warnings_andThen (Logged.value_pure _),
      Logged.warnings_andThen (value_classifyDocument hm), warnings_classifyDocument hm,
      Logged.warnings_bind, warnings_exampleValues, hempty]
    simp [warningsAbout, TypeMap.collisions]
  · exact ⟨haccount.objectAgain, haccount.unionAgain, haccount.objectTotal, haccount.unionTotal,
      haccount.silent_iff⟩

/-- A name that is twice an object, and a union and a scalar besides. -/
theorem classify_warnings_one_name :
    (Sdl.parse "type A{f:B}type A{g:B}union A=B scalar A").2 = [] ∧ ∃ m,
      (Classifier.plain.classify "type A{f:B}type A{g:B}union A=B scalar A"
        ⟨"p", "d", "a", none, none, none, none⟩).value = .ok m ∧
      WarningAccount .identity (Sdl.parse "type A{f:B}type A{g:B}union A=B scalar A").1 m
        [.objectRedefined "A", .objectAndUnion "A", .scalarCollision "A",
          .scalarCollision "A"] := by
  have accepted : (Sdl.parse "type A{f:B}type A{g:B}union A=B scalar A").2 = [] := by
    decide +kernel
  obtain ⟨m, hm, hwarnings, haccount⟩ := classify_warnings_of_accepted .plain
    ⟨"p", "d", "a", none, none, none, none⟩ accepted
  have hlist : (Classifier.plain.classify "type A{f:B}type A{g:B}union A=B scalar A"
      ⟨"p", "d", "a", none, none, none, none⟩).warnings =
      [.objectRedefined "A", .objectAndUnion "A", .scalarCollision "A", .scalarCollision "A"] := by
    decide +kernel
  rw [hlist] at hwarnings
  refine ⟨accepted, m, hm, ?_⟩
  rw [hwarnings]
  exact (List.append_nil (warningsAbout .identity _ m)).symm ▸ haccount

end SchemaCatalog
