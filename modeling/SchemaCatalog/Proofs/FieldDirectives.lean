import Mathlib.Logic.Relation
import SchemaCatalog.FieldDirectives

/-!
# SchemaCatalog.Proofs.FieldDirectives

Which directives of a field have a say in it.

For the alias it is the first one with its name, and of that the first argument with its name
(`Governs`); for a reference it is any. Everything else can come, go, move and change:
`DirectiveEdit` is one such step, and what a lookup by name finds is the same after any number of
them. The two that govern are enough to tell both (`governing`).
-/

namespace SchemaCatalog.Sdl

/-! ## First in a list -/

/-- Nothing before it has the property. -/
def IsFirst {α : Type} (P : α → Prop) (as : List α) (a : α) : Prop :=
  ∃ before behind, as = before ++ a :: behind ∧ P a ∧ ∀ b ∈ before, ¬ P b

theorem find?_eq_some_iff_isFirst {α : Type} {p : α → Bool} {as : List α} {a : α} :
    as.find? p = some a ↔ IsFirst (p · = true) as a := by
  rw [List.find?_eq_some_iff_append]
  constructor
  · rintro ⟨ha, before, behind, heq, hbefore⟩
    exact ⟨before, behind, heq, ha, fun b hb => by simpa using hbefore b hb⟩
  · rintro ⟨before, behind, heq, ha, hbefore⟩
    exact ⟨ha, before, behind, heq, fun b hb => by simpa using hbefore b hb⟩

theorem Directive.isNamed_iff {name : String} {d : Directive} :
    d.isNamed name = true ↔ d.name = some name := by
  rw [isNamed, decide_eq_true_iff]

theorem Argument.isNamed_iff {name : String} {a : Argument} :
    a.isNamed name = true ↔ a.name = some name := by
  rw [isNamed, decide_eq_true_iff]

theorem Value.text?_eq_some {v : Value} {s : String} : v.text? = some s ↔
    v.kind = .string ∧ s = String.ofList (StringLiteral.value v.source.toList) := by
  rw [text?]
  split <;> simp_all [eq_comm]

/-! ## The value that counts -/

namespace FieldDefinition

variable {f : FieldDefinition}

/-- The value of the first argument `for` of the first directive `jsonAlias`. -/
def Governs (f : FieldDefinition) (v : Value) : Prop :=
  ∃ d a, IsFirst (·.name = some "jsonAlias") f.directives d ∧
    IsFirst (·.name = some "for") d.arguments a ∧ a.value = some v

theorem aliasValue?_eq_some {v : Value} : f.aliasValue? = some v ↔ f.Governs v := by
  simp only [aliasValue?, directive?, Directive.argument?, Option.bind_eq_bind,
    Option.bind_eq_some_iff, find?_eq_some_iff_isFirst, Directive.isNamed_iff,
    Argument.isNamed_iff, Governs]
  constructor
  · rintro ⟨d, hd, a, ha, hv⟩
    exact ⟨d, a, hd, ha, hv⟩
  · rintro ⟨d, a, hd, ha, hv⟩
    exact ⟨d, hd, a, ha, hv⟩

/-- What a field of this name has from its directives. -/
structure Governed (f : FieldDefinition) (name : String) : Prop where
  alias_iff : ∀ s, f.aliasFor.value = some s ↔ ∃ v, f.Governs v ∧ v.kind = .string ∧
    s = String.ofList (StringLiteral.value v.source.toList)
  /-- One event for a value that is no string, and none otherwise. -/
  ignored : ∀ v, f.Governs v → v.kind ≠ .string → ∃ event, f.aliasFor.events = [event] ∧
    event.level = .debug ∧ event.message = "Ignoring non-string @jsonAlias argument" ∧
    event.fields = [("field", name), ("value", v.source)]
  silent : (¬ ∃ v, f.Governs v ∧ v.kind ≠ .string) → f.aliasFor.events = []
  reference_iff : f.isReference = true ↔ ∃ d ∈ f.directives, d.name = some "reference"

theorem value_aliasFor (f : FieldDefinition) :
    f.aliasFor.value = f.aliasValue?.bind Value.text? := by
  rw [aliasFor]
  cases f.aliasValue? with
  | none => rfl
  | some v =>
    rw [Option.bind_some]
    dsimp only
    cases v.text? <;> rfl

theorem events_aliasFor_of_some {v : Value} (h : f.aliasValue? = some v) : f.aliasFor.events =
    if v.kind = .string then [] else [.aliasIgnored (f.name.getD "") v.source] := by
  rw [aliasFor, h]
  dsimp only
  by_cases hkind : v.kind = .string
  · rw [Value.text?, if_pos hkind, if_pos hkind]
    rfl
  · rw [Value.text?, if_neg hkind, if_neg hkind]
    rfl

theorem events_aliasFor_of_none (h : f.aliasValue? = none) : f.aliasFor.events = [] := by
  rw [aliasFor, h]
  rfl

theorem governed {name : String} (hname : f.name = some name) : f.Governed name := by
  constructor
  · intro s
    rw [value_aliasFor, Option.bind_eq_some_iff]
    simp only [aliasValue?_eq_some, Value.text?_eq_some]
  · intro v hv hkind
    refine ⟨.aliasIgnored name v.source, ?_, rfl, rfl, rfl⟩
    rw [events_aliasFor_of_some (aliasValue?_eq_some.2 hv), if_neg hkind, hname]
    rfl
  · intro hnone
    cases hvalue : f.aliasValue? with
    | none => exact events_aliasFor_of_none hvalue
    | some v =>
      rw [events_aliasFor_of_some hvalue, if_pos]
      exact Decidable.byContradiction fun hkind =>
        hnone ⟨v, aliasValue?_eq_some.1 hvalue, hkind⟩
  · simp only [isReference, directive?, List.find?_isSome, Directive.isNamed_iff]

end FieldDefinition

/-! ## Edits -/

/-- A directive with another name comes, or changes places. -/
inductive DirectiveEdit (name : String) : List Directive → List Directive → Prop
  | insert (before behind : List Directive) {d : Directive} (h : d.name ≠ some name) :
      DirectiveEdit name (before ++ behind) (before ++ d :: behind)
  | swap (before behind : List Directive) {d e : Directive} (h : d.name ≠ some name) :
      DirectiveEdit name (before ++ d :: e :: behind) (before ++ e :: d :: behind)

/-- Something changes that has no say in the alias. -/
inductive AliasEdit : List Directive → List Directive → Prop
  | other {ds ds' : List Directive} (h : DirectiveEdit "jsonAlias" ds ds') : AliasEdit ds ds'
  | behind (before : List Directive) {d : Directive} (rest rest' : List Directive)
      (h : d.name = some "jsonAlias") : AliasEdit (before ++ d :: rest) (before ++ d :: rest')

section Edit

variable {ds ds' : List Directive}

theorem DirectiveEdit.find? {name : String} (h : DirectiveEdit name ds ds') :
    ds'.find? (·.isNamed name) = ds.find? (·.isNamed name) := by
  cases h with
  | @insert before behind d h =>
    have hd : d.isNamed name = false := by rwa [← Bool.not_eq_true, Directive.isNamed_iff]
    rw [List.find?_append, List.find?_append, List.find?_cons_of_neg (by simp [hd])]
  | @swap before behind d e h =>
    -- One of the two is passed over in either place, the other is found or not.
    have hd : d.isNamed name = false := by rwa [← Bool.not_eq_true, Directive.isNamed_iff]
    rw [List.find?_append, List.find?_append, List.find?_cons_of_neg (a := d) (by simp [hd])]
    simp only [List.find?_cons, hd]

theorem AliasEdit.find? (h : AliasEdit ds ds') :
    ds'.find? (·.isNamed "jsonAlias") = ds.find? (·.isNamed "jsonAlias") := by
  cases h with
  | other h => exact h.find?
  | @behind before d rest rest' h =>
    have hd : d.isNamed "jsonAlias" = true := Directive.isNamed_iff.2 h
    rw [List.find?_append, List.find?_append, List.find?_cons_of_pos hd, List.find?_cons_of_pos hd]

/-- Steps that each keep what is found keep it together. -/
theorem find?_of_eqvGen {r : List Directive → List Directive → Prop} {name : String}
    (hr : ∀ {ds ds'}, r ds ds' → ds'.find? (·.isNamed name) = ds.find? (·.isNamed name))
    (h : Relation.EqvGen r ds ds') : ds'.find? (·.isNamed name) = ds.find? (·.isNamed name) := by
  induction h with
  | rel ds ds' h => exact hr h
  | refl ds => rfl
  | symm ds ds' _ ih => exact ih.symm
  | trans ds ds' ds'' _ _ ih ih' => exact ih'.trans ih

end Edit

namespace FieldDefinition

variable (f : FieldDefinition) {ds : List Directive}

theorem aliasFor_congr
    (h : ds.find? (·.isNamed "jsonAlias") = f.directives.find? (·.isNamed "jsonAlias")) :
    { f with directives := ds }.aliasFor = f.aliasFor := by
  simp only [aliasFor, aliasValue?, directive?, h]

theorem isReference_congr
    (h : ds.find? (·.isNamed "reference") = f.directives.find? (·.isNamed "reference")) :
    { f with directives := ds }.isReference = f.isReference := by
  simp only [isReference, directive?, h]

theorem aliasFor_of_edits (h : Relation.EqvGen AliasEdit f.directives ds) :
    { f with directives := ds }.aliasFor = f.aliasFor :=
  f.aliasFor_congr (find?_of_eqvGen AliasEdit.find? h)

theorem isReference_of_edits (h : Relation.EqvGen (DirectiveEdit "reference") f.directives ds) :
    { f with directives := ds }.isReference = f.isReference :=
  f.isReference_congr (find?_of_eqvGen DirectiveEdit.find? h)

end FieldDefinition

/-! ## The directives that are enough -/

/-- The first alias and the first reference. -/
def governing (ds : List Directive) : List Directive :=
  (ds.find? (·.isNamed "jsonAlias")).toList ++ (ds.find? (·.isNamed "reference")).toList

theorem find?_toList_find? (name name' : String) (hne : name ≠ name') (ds : List Directive) :
    (ds.find? (·.isNamed name)).toList.find? (·.isNamed name) = ds.find? (·.isNamed name) ∧
      (ds.find? (·.isNamed name)).toList.find? (·.isNamed name') = none := by
  cases h : ds.find? (·.isNamed name) with
  | none => exact ⟨rfl, rfl⟩
  | some d =>
    have hd : d.name = some name := Directive.isNamed_iff.1 (List.find?_some h)
    refine ⟨List.find?_cons_of_pos (Directive.isNamed_iff.2 hd), ?_⟩
    rw [Option.toList_some, List.find?_cons_of_neg, List.find?_nil]
    rw [Directive.isNamed_iff, hd, Option.some.injEq]
    exact hne

theorem find?_governing (ds : List Directive) :
    (governing ds).find? (·.isNamed "jsonAlias") = ds.find? (·.isNamed "jsonAlias") ∧
      (governing ds).find? (·.isNamed "reference") = ds.find? (·.isNamed "reference") := by
  obtain ⟨hown, hother⟩ := find?_toList_find? "jsonAlias" "reference" (by decide) ds
  obtain ⟨hown', hother'⟩ := find?_toList_find? "reference" "jsonAlias" (by decide) ds
  rw [governing, List.find?_append, List.find?_append, hown, hother, hown', hother']
  exact ⟨Option.or_none, Option.none_or⟩

namespace FieldDefinition

theorem keeps_governing (f : FieldDefinition) :
    { f with directives := governing f.directives }.aliasFor = f.aliasFor ∧
      { f with directives := governing f.directives }.isReference = f.isReference :=
  ⟨f.aliasFor_congr (find?_governing _).1, f.isReference_congr (find?_governing _).2⟩

end FieldDefinition

end SchemaCatalog.Sdl
