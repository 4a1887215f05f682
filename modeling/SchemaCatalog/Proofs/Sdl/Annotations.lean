import SchemaCatalog.Sdl.Grammar

/-!
# SchemaCatalog.Proofs.Sdl.Annotations

Trees that keep the directives on the arguments of a field and on an object type.

The grammar reads these directives like all others and lets go of them, so its tree cannot say
that they have no influence. Here are the rules that keep them. They read the same tokens, and
what they keep in addition can be dropped (`parse_eq_erase`): `Parse.Erases f p q` says that `q`
is `p` with `f` behind it, with one lemma for each way to combine steps.
-/

namespace SchemaCatalog.Sdl

open Parse

/-! ## Trees -/

/-- An argument of a field. -/
structure AnnotatedInput where
  name : Option String
  type : TypeNode
  directives : List Directive
deriving DecidableEq, Repr

structure AnnotatedField where
  field : FieldDefinition
  inputs : List AnnotatedInput
deriving DecidableEq, Repr

structure AnnotatedObject where
  name : Option String
  interfaces : List String
  directives : List Directive
  fields : List AnnotatedField
deriving DecidableEq, Repr

inductive AnnotatedDefinition where
  | object (type : AnnotatedObject)
  | other (definition : Definition)
deriving DecidableEq, Repr

def AnnotatedObject.erase (o : AnnotatedObject) : ObjectType :=
  ⟨o.name, o.interfaces, o.fields.map (·.field)⟩

def AnnotatedDefinition.erase : AnnotatedDefinition → Definition
  | object type => .object type.erase
  | other definition => definition

/-! ## Rules -/

def annotatedInput : Parse AnnotatedInput := do
  description
  let inputName ← name "expected a Name"
  if ← sees (.punctuator ':') then
    bump
    if ← seesAny typeStart then
      let node ← type
      defaultValue
      return ⟨inputName, node, ← constDirectives⟩
    else
      complain "expected a Type"
      return ⟨inputName, .missing, []⟩
  else
    complain "expected a Name"
    return ⟨inputName, .missing, []⟩

def annotatedInputs : Parse (List AnnotatedInput) :=
  block ')' "R_PAREN" "expected an Argument Definition" annotatedInput

def annotatedField : Parse AnnotatedField := do
  description
  let fieldName ← name "expected a Name"
  let inputs ← given (sees (.punctuator '(')) annotatedInputs (pure [])
  if ← sees (.punctuator ':') then
    bump
    if ← seesAny typeStart then
      let (node, source) ← withSource type
      return ⟨⟨fieldName, node, source, ← constDirectives⟩, inputs⟩
    else
      complain "expected a Type"
      return ⟨⟨fieldName, .missing, "", []⟩, inputs⟩
  else
    complain "expected a type"
    return ⟨⟨fieldName, .missing, "", []⟩, inputs⟩

def annotatedFields : Parse (List AnnotatedField) :=
  block '\x7d' "R_CURLY" "expected Field Definition" annotatedField

def annotatedObject : Parse AnnotatedObject := do
  let typeName ← definitionHead "type" "expected a name"
  let interfaces ← given (seesWord "implements") implemented (pure [])
  let own ← constDirectives
  let fieldList ← given (sees (.punctuator '\x7b')) annotatedFields (pure [])
  return ⟨typeName, interfaces, own, fieldList⟩

def annotatedDefinition (word : String) : Parse (Option AnnotatedDefinition) :=
  if word = "type" then (some ∘ .object) <$> annotatedObject
  else Option.map .other <$> definition word

/-- What stands at the top level, where `read` reads the definition that a word announces. -/
def topLevelOf {α : Type} (read : String → Parse (Option α)) : Parse (Option α) := do
  match ← peek with
  | none => return none
  | some token =>
    match token.kind with
    | .string =>
      match ← second with
      | some next => read next.text
      | none =>
        complainAndDrop "expected a definition after this StringValue"
        return none
    | .name | .punctuator '\x7b' => read token.text
    | _ =>
      complainAndDrop "expected a StringValue, Name or OperationDefinition"
      return none

def annotatedDocument : Parse (List AnnotatedDefinition) := do
  skip
  demand hasMore "Unexpected <EOF>."
  return (← many hasMore (topLevelOf annotatedDefinition)).filterMap id

/-- The tree of a text with the directives on arguments and object types. -/
def parseAnnotated (text : String) : List AnnotatedDefinition :=
  (annotatedDocument.run (Cursor.start (Lexeme.scan text))).1

/-! ## What is kept in addition -/

namespace Parse

variable {α β γ δ : Type}

/-- One run of `p` gives what `q` gives and more, and ends where `q` ends. -/
def Erases (f : α → β) (p : Parse α) (q : Parse β) : Prop :=
  ∀ c, q.run c = (f (p.run c).1, (p.run c).2)

namespace Erases

variable {f : α → β} {p p' : Parse α} {q q' : Parse β}

theorem refl (p : Parse α) : Erases id p p := fun _ => rfl

theorem pure {a : α} {b : β} (h : b = f a) : Erases f (Pure.pure a) (Pure.pure b) := by
  intro c
  rw [h]
  rfl

theorem bind {g : γ → δ} {k : α → Parse γ} {l : β → Parse δ} (h : Erases f p q)
    (hk : ∀ a, Erases g (k a) (l (f a))) : Erases g (p >>= k) (q >>= l) := by
  intro c
  -- The second step starts where the first one ends, which is the same place on both sides.
  change (l (q.run c).1).run (q.run c).2 = _
  rw [h c]
  exact hk _ _

/-- What has no result is given one. -/
theorem unit (p : Parse Unit) (a : α) : Erases (fun _ => ()) (p >>= fun _ => Pure.pure a) p :=
  fun _ => rfl

/-- One side goes on with what it has. -/
theorem after (h : Erases f p q) (g : β → γ) :
    Erases (fun a => g (f a)) p (q >>= fun b => Pure.pure (g b)) := by
  intro c
  change (g (q.run c).1, (q.run c).2) = _
  rw [h c]

theorem same {g : γ → δ} {k : α → Parse γ} {l : α → Parse δ} (hk : ∀ a, Erases g (k a) (l a)) :
    Erases g (p >>= k) (p >>= l) :=
  (refl p).bind hk

theorem map {g : γ → δ} {f' : α → γ} {g' : β → δ} (h : Erases f p q)
    (hcomm : ∀ a, g' (f a) = g (f' a)) : Erases g (f' <$> p) (g' <$> q) :=
  h.bind fun a => pure (hcomm a)

theorem ite {b : Prop} [Decidable b] (h : Erases f p q) (h' : Erases f p' q') :
    Erases f (if b then p else p') (if b then q else q') := by
  split
  · exact h
  · exact h'

theorem given (test : Parse Bool) (h : Erases f p q) (h' : Erases f p' q') :
    Erases f (given test p p') (given test q q') :=
  same fun _ => h.ite h'

theorem many (more : Parse Bool) (h : Erases f p q) :
    Erases (List.map f) (many more p) (many more q) := by
  -- By induction on the bound, which both take from the cursor they start at.
  have hn : ∀ n, Erases (List.map f) (repeatUpTo more p n) (repeatUpTo more q n) := by
    intro n
    induction n with
    | zero => exact pure rfl
    | succ n ih =>
      exact same fun _ => ite (h.bind fun _ => ih.bind fun _ => pure rfl) (pure rfl)
  exact same fun n => hn n

theorem block (closing : Char) (label complaint : String) (h : Erases f p q) :
    Erases (List.map f) (block closing label complaint p) (block closing label complaint q) :=
  same fun _ => same fun _ => (h.many _).bind fun _ => same fun _ => pure rfl

end Erases

end Parse

/-! ## The rules read the same -/

theorem erases_input : Erases (fun _ => ()) annotatedInput inputValue := by
  refine .same fun _ => .same fun inputName => .same fun _ => .ite ?_ (.unit _ _)
  refine .same fun _ => .same fun _ => .ite ?_ (.unit _ _)
  exact .same fun node => .same fun _ => .same fun ds => .pure rfl

theorem erases_inputs : Erases (fun _ => ()) annotatedInputs argumentsDefinition :=
  (erases_input.block _ _ _).after fun _ => ()

theorem erases_field : Erases AnnotatedField.field annotatedField fieldDefinition := by
  refine .same fun _ => .same fun fieldName => ?_
  refine .bind (.given _ erases_inputs (.pure rfl)) fun inputs => ?_
  refine .same fun _ => .ite ?_ (.same fun _ => .pure rfl)
  refine .same fun _ => .same fun _ => .ite ?_ (.same fun _ => .pure rfl)
  exact .same fun read => .same fun ds => .pure rfl

theorem erases_fields : Erases (List.map AnnotatedField.field) annotatedFields fields :=
  erases_field.block _ _ _

theorem erases_fieldsType :
    Erases AnnotatedObject.erase annotatedObject (fieldsType "type" "expected a name") := by
  refine .same fun typeName => .same fun interfaces => .same fun own => ?_
  exact .bind (.given _ erases_fields (.pure rfl)) fun fieldList => .pure rfl

theorem erases_object :
    Erases (fun o => Definition.object o.erase) annotatedObject objectDefinition := by
  rw [objectDefinition]
  exact erases_fieldsType.after Definition.object

theorem erases_other (p : Parse (Option Definition)) :
    Erases (Option.map AnnotatedDefinition.erase) (Option.map .other <$> p) p := by
  intro c
  change _ = (Option.map _ (Option.map _ _), _)
  rw [Option.map_map]
  exact congrArg (·, _) Option.map_id'.symm

theorem erases_definition (word : String) :
    Erases (Option.map AnnotatedDefinition.erase) (annotatedDefinition word) (definition word) := by
  rw [annotatedDefinition]
  by_cases hword : word = "type"
  · have htype : definition "type" = some <$> objectDefinition := rfl
    rw [hword, if_pos rfl, htype]
    exact erases_object.map fun o => rfl
  · rw [if_neg hword]
    exact erases_other _

theorem erases_topLevel :
    Erases (Option.map AnnotatedDefinition.erase) (topLevelOf annotatedDefinition) topLevel := by
  have htopLevel : topLevel = topLevelOf definition := rfl
  rw [htopLevel]
  refine .same fun token? => ?_
  cases token? with
  | none => exact .pure rfl
  | some token =>
    dsimp only
    split
    · refine .same fun next? => ?_
      cases next? with
      | none => exact .same fun _ => .pure rfl
      | some next => exact erases_definition next.text
    · exact erases_definition token.text
    · exact erases_definition token.text
    · exact .same fun _ => .pure rfl

/-- The tree of a text is the tree with those directives, without them. -/
theorem parse_eq_erase (text : String) :
    (parse text).1 = ⟨(parseAnnotated text).map AnnotatedDefinition.erase⟩ := by
  have hdocument : Erases (fun ds => Document.mk (ds.map AnnotatedDefinition.erase))
      annotatedDocument document := by
    refine .same fun _ => .same fun _ => .bind (.many _ erases_topLevel) fun ds => .pure ?_
    rw [List.filterMap_map, List.map_filterMap]
    rfl
  rw [parse, parseAnnotated, hdocument]

end SchemaCatalog.Sdl
