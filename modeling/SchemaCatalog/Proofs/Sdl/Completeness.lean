import SchemaCatalog.Proofs.Sdl.TypeReading

/-!
# SchemaCatalog.Proofs.Sdl.Completeness

A text without complaints has a tree without gaps.

The tree is tolerant, so every part of it may be missing. `Document.Complete` says that none is:
every object type, union, scalar and field has its name, and every field has a type with all its
wrappers, which is what the text says there. `complete_of_clean`: the tree of every text without
complaints is complete. The proof has one lemma for each rule of the grammar; the rules whose
trees are dropped only have to leave the cursor live.
-/

namespace SchemaCatalog.Sdl

open Parse

/-! ## Complete trees -/

/-- A field with its name and its type. -/
def FieldDefinition.Complete (text : String) (f : FieldDefinition) : Prop :=
  (∃ n, f.name = some n ∧ isName n.toList = true) ∧ ∃ t, TypeWritten text f.type f.typeSource t

def Definition.Complete (text : String) : Definition → Prop
  | object type => (∃ n, type.name = some n ∧ isName n.toList = true) ∧
      ∀ f ∈ type.fields, f.Complete text
  | union type => ∃ n, type.name = some n ∧ isName n.toList = true
  | scalar type => ∃ n, type.name = some n ∧ isName n.toList = true
  | other _ => True

def Document.Complete (text : String) (d : Document) : Prop :=
  ∀ definition ∈ d.definitions, definition.Complete text

/-! ## Rules that keep the cursor live -/

variable {text : String}

/-- A clean run from a live cursor ends at one. -/
abbrev Keeps {α : Type} (text : String) (p : Parse α) : Prop :=
  Ensures (Cursor.Live text) p fun _ => Cursor.Live text

/-- A clean run from before the end of the text ends at a live cursor. -/
abbrev Takes {α : Type} (text : String) (p : Parse α) : Prop :=
  Ensures (Cursor.Inside text) p fun _ => Cursor.Live text

theorem keeps_pure {α : Type} (a : α) : Keeps text (pure a : Parse α) :=
  Ensures.pure fun _ hc => hc

theorem keeps_inspect {α : Type} (question : Cursor → α) : Keeps text (inspect question) :=
  Ensures.inspect fun _ hc => hc

theorem keeps_name (complaint : String) : Keeps text (name complaint) :=
  (Ensures.name complaint).weaken fun _ _ h => h.1

theorem keeps_many {α : Type} {more : Parse Bool} {item : Parse α} (hmore : Guards text more)
    (hitem : Takes text item) : Keeps text (many more item) :=
  (Ensures.many (G := fun _ => True) hmore (hitem.weaken fun _ _ h => ⟨h, trivial⟩)).weaken
    fun _ _ h => h.1

theorem guards_punctuator (d : Char) : Guards text (sees (.punctuator d)) :=
  Guards.sees (by simp)

theorem guards_name : Guards text (sees .name) := Guards.sees (by simp)

theorem keeps_expect (d : Char) (label : String) :
    Keeps text (expect (.punctuator d) label) :=
  Ensures.expect (by simp) label

/-! ### Values -/

theorem keeps_enumValue : Keeps text enumValue := by
  refine Ensures.given guards_name ?_ (rejects_complain _).ensures
  refine Ensures.inside ?_
  refine Ensures.bind (Ensures.whenever (Guards.seesAnyWord (by decide)) ?_) fun _ => ?_
  · exact (rejects_complain _).ensures.inside
  · exact (keeps_name _).bind fun _ => keeps_pure _

theorem keeps_listItems {item? : Option (Parse Unit)}
    (hitem : ∀ item, item? = some item → Keeps text item) (n : Nat) :
    Keeps text (listItems item? n) := by
  induction n with
  | zero => exact keeps_pure _
  | succ n ih =>
    refine Ensures.peekThen fun token _ => Ensures.ite (fun hk => ?_) fun _ => ?_
    · exact Ensures.bump.ofInside (by simp [hk])
    · refine Ensures.ite (fun _ => (keeps_pure _).ofLive) fun _ => ?_
      cases item? with
      | none => exact rejects_tooDeep.ensures.ofLive
      | some item => exact ((hitem item rfl).bind fun _ => ih).ofLive

theorem keeps_objectField {item? : Option (Parse Unit)}
    (hitem : ∀ item, item? = some item → Keeps text item) : Keeps text (objectField item?) := by
  refine (keeps_name _).bind fun _ => Ensures.given (guards_punctuator ':') ?_ (keeps_pure _)
  refine Ensures.bump.bind fun _ => ?_
  cases item? with
  | none => exact rejects_tooDeep.ensures
  | some item => exact hitem item rfl

theorem keeps_valueLevel {item? : Option (Parse Unit)}
    (hitem : ∀ item, item? = some item → Keeps text item) (const drops : Bool) :
    Keeps text (valueLevel item? const drops) := by
  have hfault (message : String) :
      Rejects text (if drops then complainAndDrop message else complain message) := by
    cases drops with
    | true => exact rejects_complainAndDrop message
    | false => exact rejects_complain message
  have htake (kind : ValueKind) :
      Ensures (Cursor.Inside text) (do bump; return some kind) fun _ => Cursor.Live text :=
    Ensures.bump.bind fun _ => keeps_pure _
  refine Ensures.peekThen fun token _ => ?_
  dsimp only
  split
  · rename_i hk
    refine Ensures.bind (R := fun _ => Cursor.Inside text) ?_ fun _ => ?_
    · cases const with
      | true => exact (hfault _).ensures.ofLive
      | false => exact Ensures.pure fun c hc => ⟨hc.1, hc.2.mono fun t ht => by simp [ht, hk]⟩
    · exact Ensures.bump.bind fun _ => (keeps_name _).bind fun _ => keeps_pure _
  · exact (htake _).ofInside (by simp_all)
  · exact (htake _).ofInside (by simp_all)
  · exact (htake _).ofInside (by simp_all)
  · refine Ensures.ite (fun _ => (htake _).ofInside (by simp_all)) fun _ => ?_
    refine Ensures.ite (fun _ => (htake _).ofInside (by simp_all)) fun _ => ?_
    exact (keeps_enumValue.bind fun _ => keeps_pure _).ofLive
  · refine Ensures.ofInside ?_ (by simp_all)
    refine Ensures.bump.bind fun _ => (keeps_inspect _).bind fun n => ?_
    exact (keeps_listItems hitem n).bind fun _ => keeps_pure _
  · refine Ensures.ofInside ?_ (by simp_all)
    refine Ensures.bump.bind fun _ => ?_
    refine Ensures.bind (keeps_many guards_name (keeps_objectField hitem).inside) fun _ => ?_
    exact (keeps_expect _ _).bind fun _ => keeps_pure _
  · exact (hfault _).bind.ensures.ofLive

theorem keeps_valueAt (levels : Nat) (const drops : Bool) :
    Keeps text (valueAt levels const drops) := by
  induction levels generalizing const drops with
  | zero => exact keeps_valueLevel (fun _ h => by cases h) const drops
  | succ levels ih =>
    refine keeps_valueLevel (fun item h => ?_) const drops
    cases h
    exact (ih const true).discard

/-! ### Directives, separated lists and blocks -/

theorem keeps_withSource {α : Type} {item : Parse α} (h : Keeps text item) :
    Keeps text (withSource item) := by
  refine Ensures.peekThen fun _ _ => Ensures.ofLive ?_
  refine (keeps_inspect _).bind fun _ => h.bind fun _ => ?_
  exact (keeps_inspect _).bind fun _ => keeps_pure _

theorem keeps_argument (levels : Nat) (const : Bool) : Keeps text (argument levels const) := by
  refine (keeps_name _).bind fun _ => Ensures.given (guards_punctuator ':') ?_ (keeps_pure _)
  refine Ensures.bump.bind fun _ => ?_
  exact (keeps_withSource (keeps_valueAt levels const false)).bind fun _ => keeps_pure _

theorem takes_arguments (levels : Nat) (const : Bool) : Takes text (arguments levels const) := by
  refine Ensures.bump.bind fun _ => (Ensures.demand guards_name.keeps _).bind fun _ => ?_
  refine (keeps_many guards_name (keeps_argument levels const).inside).bind fun _ => ?_
  exact (keeps_expect _ _).bind fun _ => keeps_pure _

theorem takes_directive (levels : Nat) (const : Bool) : Takes text (directive levels const) := by
  refine Ensures.bump.bind fun _ => (keeps_name _).bind fun _ => ?_
  refine Ensures.given (guards_punctuator '(') ?_ (keeps_pure _)
  exact (takes_arguments levels const).bind fun _ => keeps_pure _

theorem keeps_directives (levels : Nat) (const : Bool) : Keeps text (directives levels const) :=
  keeps_many (guards_punctuator '@') (takes_directive levels const)

theorem keeps_constDirectives : Keeps text constDirectives := keeps_directives _ _

theorem keeps_separated {α : Type} (separator : Char) {item : Parse α} (h : Keeps text item) :
    Keeps text (separated separator item) := by
  refine (Ensures.whenever (guards_punctuator separator) Ensures.bump).bind fun _ => ?_
  refine h.bind fun _ => ?_
  refine (keeps_many (guards_punctuator separator) ?_).bind fun _ => keeps_pure _
  exact Ensures.bump.bind fun _ => h

theorem keeps_description : Keeps text description :=
  Ensures.whenever (Guards.sees (by simp)) Ensures.bump

theorem guards_itemStart : Guards text (seesAny itemStart) := Guards.seesAny (by decide)

theorem guards_typeStart : Guards text (seesAny typeStart) := Guards.seesAny (by decide)

/-- What holds of every item of a block. -/
theorem ensures_block {α : Type} {item : Parse α} {G : α → Prop} (closing : Char)
    (label complaint : String)
    (h : Ensures (Cursor.Live text) item fun a c => c.Live text ∧ G a) :
    Ensures (Cursor.Inside text) (block closing label complaint item) fun as c =>
      c.Live text ∧ ∀ a ∈ as, G a := by
  refine Ensures.bump.bind fun _ => (Ensures.demand guards_itemStart.keeps _).bind fun _ => ?_
  refine (Ensures.many guards_itemStart h.inside).andThen fun as has => ?_
  exact (keeps_expect closing label).bind fun _ => Ensures.pure fun _ hc => ⟨hc, has⟩

theorem takes_block {α : Type} {item : Parse α} (closing : Char) (label complaint : String)
    (h : Keeps text item) : Takes text (block closing label complaint item) :=
  (ensures_block (G := fun _ => True) closing label complaint
    (h.weaken fun _ _ hc => ⟨hc, trivial⟩)).weaken fun _ _ h => h.1

/-! ### Fields and input values -/

theorem keeps_defaultValue : Keeps text defaultValue :=
  Ensures.whenever (guards_punctuator '=') <|
    Ensures.bump.bind fun _ => (keeps_valueAt _ _ _).bind fun _ => keeps_pure _

/-- A type is read wherever one may start. -/
theorem keeps_type : Keeps text type := by
  rintro c hc hclean
  exact (ensures_type c.rest c ⟨hc, rfl⟩ hclean).1

theorem keeps_inputType : Keeps text inputType := by
  refine Ensures.given guards_typeStart ?_ (rejects_complain _).ensures
  refine Ensures.inside (keeps_type.bind fun _ => keeps_defaultValue.bind fun _ => ?_)
  exact keeps_constDirectives.bind fun _ => keeps_pure _

theorem keeps_inputValue : Keeps text inputValue := by
  refine keeps_description.bind fun _ => (keeps_name _).bind fun _ => ?_
  refine Ensures.given (guards_punctuator ':') ?_ (rejects_complain _).ensures
  exact Ensures.bump.bind fun _ => keeps_inputType

theorem takes_argumentsDefinition : Takes text argumentsDefinition :=
  (takes_block _ _ _ keeps_inputValue).bind fun _ => keeps_pure _

theorem takes_inputFields : Takes text inputFields :=
  (takes_block _ _ _ keeps_inputValue).bind fun _ => keeps_pure _

theorem ensures_fieldDefinition :
    Ensures (Cursor.Live text) fieldDefinition fun f c => c.Live text ∧ f.Complete text := by
  refine keeps_description.bind fun _ => (Ensures.name _).andThen fun n hn => ?_
  refine (Ensures.whenever (guards_punctuator '(') takes_argumentsDefinition).bind fun _ => ?_
  refine Ensures.given (guards_punctuator ':') ?_ (rejects_complain _).bind.ensures
  refine Ensures.bump.bind fun _ => ?_
  refine Ensures.given guards_typeStart ?_ (rejects_complain _).bind.ensures
  refine Ensures.inside ((ensures_source text).andThen fun r hr => ?_)
  exact keeps_constDirectives.bind fun _ => Ensures.pure fun c hc => ⟨hc, hn, hr⟩

theorem ensures_fields :
    Ensures (Cursor.Inside text) fields fun fs c => c.Live text ∧ ∀ f ∈ fs, f.Complete text :=
  ensures_block _ _ _ ensures_fieldDefinition

theorem keeps_enumValueDefinition : Keeps text enumValueDefinition := by
  refine keeps_description.bind fun _ => keeps_enumValue.bind fun _ => ?_
  exact keeps_constDirectives.bind fun _ => keeps_pure _

theorem takes_enumValues : Takes text enumValues :=
  (takes_block _ _ _ keeps_enumValueDefinition).bind fun _ => keeps_pure _

theorem takes_implemented : Takes text implemented :=
  Ensures.bump.bind fun _ => (keeps_separated '&' (keeps_name _)).bind fun _ => keeps_pure _

theorem takes_members : Takes text members :=
  Ensures.bump.bind fun _ => (keeps_separated '|' (keeps_name _)).bind fun _ => keeps_pure _

/-! ### Type definitions -/

theorem ensures_definitionHead {word : String} (h : word ≠ "") (complaint : String) :
    Ensures (Cursor.Live text) (definitionHead word complaint) fun n c =>
      c.Live text ∧ ∃ s, n = some s ∧ isName s.toList = true := by
  refine keeps_description.bind fun _ => ?_
  exact (Ensures.whenever (Guards.seesWord h) Ensures.bump).bind fun _ => Ensures.name _

theorem ensures_fieldsType {word : String} (h : word ≠ "") (complaint : String) :
    Ensures (Cursor.Live text) (fieldsType word complaint) fun o c =>
      c.Live text ∧ (Definition.object o).Complete text := by
  refine (ensures_definitionHead h complaint).andThen fun n hn => ?_
  refine (Ensures.given (Guards.seesWord (by decide)) takes_implemented (keeps_pure _)).bind
    fun _ => ?_
  refine keeps_constDirectives.bind fun _ => ?_
  refine (Ensures.given (guards_punctuator _) ensures_fields
    (Ensures.pure fun _ hc => ⟨hc, by simp⟩)).andThen fun fs hfs => ?_
  exact Ensures.pure fun c hc => ⟨hc, hn, hfs⟩

/-- The rule for a definition of any kind. -/
abbrev Completes (text : String) (p : Parse Definition) : Prop :=
  Ensures (Cursor.Live text) p fun d c => c.Live text ∧ d.Complete text

theorem completes_objectDefinition : Completes text objectDefinition :=
  (ensures_fieldsType (by decide) _).bind fun _ => Ensures.pure fun _ h => h

theorem completes_other {p : Parse Unit} (h : Keeps text p) (kind : OtherKind) :
    Completes text (do p; return .other kind) :=
  h.bind fun _ => Ensures.pure fun _ hc => ⟨hc, trivial⟩

theorem completes_interfaceDefinition : Completes text interfaceDefinition :=
  (ensures_fieldsType (by decide) _).andThen fun _ _ => Ensures.pure fun _ hc => ⟨hc, trivial⟩

theorem completes_scalarDefinition : Completes text scalarDefinition :=
  (ensures_definitionHead (by decide) _).andThen fun _ hn =>
    keeps_constDirectives.bind fun _ => Ensures.pure fun _ hc => ⟨hc, hn⟩

theorem completes_unionDefinition : Completes text unionDefinition := by
  refine (ensures_definitionHead (by decide) _).andThen fun n hn => ?_
  refine keeps_constDirectives.bind fun _ => ?_
  refine (Ensures.given (guards_punctuator '=') takes_members (keeps_pure _)).bind fun _ => ?_
  exact Ensures.pure fun _ hc => ⟨hc, hn⟩

theorem completes_enumDefinition : Completes text enumDefinition := by
  refine (ensures_definitionHead (by decide) _).andThen fun n hn => ?_
  refine keeps_constDirectives.bind fun _ => ?_
  exact completes_other (Ensures.whenever (guards_punctuator _) takes_enumValues) .enum

theorem completes_inputDefinition : Completes text inputDefinition := by
  refine (ensures_definitionHead (by decide) _).andThen fun n hn => ?_
  refine keeps_constDirectives.bind fun _ => ?_
  exact completes_other (Ensures.whenever (guards_punctuator _) takes_inputFields) .inputObject

theorem keeps_operationType : Keeps text operationType := by
  refine Ensures.peekThen fun token hreg => Ensures.ite (fun hword => ?_) fun _ => ?_
  · refine Ensures.bump.ofInside fun hend => ?_
    rw [hreg.endOfInput.1 hend] at hword
    cases hword
  · exact (rejects_complainAndDrop _).ensures.ofLive

theorem keeps_rootOperation : Keeps text rootOperation := by
  refine keeps_operationType.bind fun _ => ?_
  refine Ensures.given (guards_punctuator ':') ?_ (rejects_complain _).ensures
  exact Ensures.bump.bind fun _ => Ensures.whenever guards_name Ensures.bump

theorem keeps_rootOperations : Keeps text rootOperations :=
  (keeps_many guards_name keeps_rootOperation.inside).bind fun _ => keeps_pure _

theorem completes_schemaDefinition : Completes text schemaDefinition := by
  refine keeps_description.bind fun _ => ?_
  refine (Ensures.whenever (Guards.seesWord (by decide)) Ensures.bump).bind fun _ => ?_
  refine keeps_constDirectives.bind fun _ => completes_other ?_ .schema
  refine Ensures.whenever (guards_punctuator _) (Ensures.bump.bind fun _ => ?_)
  exact (Ensures.demand keeps_rootOperations _).bind fun _ => keeps_expect _ _

theorem keeps_directiveLocation : Keeps text directiveLocation := by
  refine Ensures.given guards_name (Ensures.inside ?_) (rejects_complain _).ensures
  exact Ensures.given (Guards.seesAnyWord (by decide)) Ensures.bump (rejects_complain _).ensures

theorem completes_directiveDefinition : Completes text directiveDefinition := by
  refine keeps_description.bind fun _ => ?_
  refine (Ensures.whenever (Guards.seesWord (by decide)) Ensures.bump).bind fun _ => ?_
  refine (Ensures.given (guards_punctuator '@') Ensures.bump (rejects_complain _).ensures).bind
    fun _ => (keeps_name _).bind fun _ => ?_
  refine (Ensures.whenever (guards_punctuator '(') takes_argumentsDefinition).bind fun _ => ?_
  refine (Ensures.whenever (Guards.seesWord (by decide)) Ensures.bump).bind fun _ => ?_
  refine (Ensures.given (Guards.seesWord (by decide)) Ensures.bump
    (rejects_complain _).ensures).bind fun _ => completes_other ?_ .directive
  refine Ensures.given (Guards.seesAny (by decide)) (Ensures.inside ?_) (rejects_complain _).ensures
  exact (keeps_separated '|' keeps_directiveLocation).discard

/-! ### Extensions -/

theorem keeps_formBody {form : ExtensionForm} {word : String}
    (h : extensionForm? word = some form) :
    ∀ opener body, form.body = some (opener, body) → Takes text body := by
  unfold extensionForm? at h
  split at h <;> cases h <;> intro opener body hbody <;> cases hbody
  · exact (ensures_fields.weaken fun _ _ h => h.1).discard
  · exact (ensures_fields.weaken fun _ _ h => h.1).discard
  · exact takes_members.discard
  · exact takes_enumValues
  · exact takes_inputFields

theorem takes_schemaExtensionBody : Takes text schemaExtensionBody :=
  Ensures.bump.bind fun _ => keeps_rootOperations.bind fun _ =>
    (keeps_expect _ _).bind fun _ => keeps_pure _

theorem keeps_readBody {form : ExtensionForm}
    (h : ∀ opener body, form.body = some (opener, body) → Takes text body) :
    Keeps text form.readBody := by
  unfold ExtensionForm.readBody
  split
  · exact keeps_pure _
  · rename_i opener body hbody
    refine Ensures.given (guards_punctuator opener) ?_ (keeps_pure _)
    exact (h opener body hbody).bind fun _ => keeps_pure _

theorem keeps_readRoots (form : ExtensionForm) : Keeps text form.readRoots :=
  Ensures.ite
    (fun _ => Ensures.given (guards_punctuator _) takes_schemaExtensionBody (keeps_pure _))
    fun _ => keeps_pure _

theorem keeps_readInterfaces (form : ExtensionForm) : Keeps text form.readInterfaces :=
  Ensures.ite
    (fun _ => Ensures.given (Guards.seesWord (by decide))
      (takes_implemented.bind fun _ => keeps_pure _) (keeps_pure _))
    fun _ => keeps_pure _

theorem counts_of_form {t : Token} {form : ExtensionForm} (hreg : t.Regular)
    (hcomma : t.kind.isIgnored = true → t.kind = .punctuator ',')
    (h : extensionForm? t.text = some form) :
    t.kind.isIgnored = false ∧ t.kind ≠ .endOfInput := by
  constructor
  · rw [Bool.eq_false_iff]
    intro hign
    have htext : t.text = "," := String.toList_inj.1 (hreg.punctuator ',' (hcomma hign))
    rw [htext] at h
    cases h
  · intro hend
    rw [hreg.endOfInput.1 hend] at h
    cases h

theorem keeps_extensionBody {t : Token} {form : ExtensionForm} (hcounts : t.kind.isIgnored = false)
    (hend : t.kind ≠ .endOfInput) (h : extensionForm? t.text = some form) :
    Ensures (fun c => c.Inside text ∧ c.Second t) (extensionBody form) fun _ =>
      Cursor.Live text := by
  refine (Ensures.bumpSecond hcounts).bind fun _ => (Ensures.bump.ofInside hend).bind fun _ => ?_
  refine Ensures.bind (Ensures.givenPure (fun _ => (keeps_name _).discard) fun _ => keeps_pure _)
    fun _ => ?_
  refine (keeps_readInterfaces form).bind fun _ => ?_
  refine (guards_punctuator '@').keeps.bind fun _ => keeps_constDirectives.bind fun _ => ?_
  refine (keeps_readBody (keeps_formBody h)).bind fun _ => (keeps_readRoots form).bind fun _ => ?_
  exact Ensures.ite (fun _ => (rejects_complain _).ensures) fun _ => keeps_pure _

/-- The rule for what stands at the top level, where a fault leaves nothing. -/
abbrev CompletesTop (text : String) (p : Parse (Option Definition)) : Prop :=
  Ensures (Cursor.Inside text) p fun r c => c.Live text ∧ ∀ d ∈ r, d.Complete text

theorem completes_fault {p : Parse Unit} (h : Rejects text p) :
    CompletesTop text (do p; return none) :=
  h.bind.ensures.inside

theorem completes_extension : CompletesTop text extension := by
  refine Ensures.bind Ensures.second fun r => ?_
  cases hform : r.bind (extensionForm? ·.text) with
  | none =>
    exact (completes_fault (rejects_complainAndDrop _)).mono (fun c hc => hc.1) fun _ _ h => h
  | some form =>
    obtain ⟨t, rfl, hform⟩ := Option.bind_eq_some_iff.1 hform
    rintro c ⟨hc, ht⟩
    obtain ⟨hsecond, hreg, hcomma⟩ := ht t rfl
    obtain ⟨hcounts, hend⟩ := counts_of_form hreg hcomma hform
    have hbody : Ensures (fun c => c.Inside text ∧ c.Second t)
        (do extensionBody form; return some (Definition.other form.kind)) fun r c =>
          c.Live text ∧ ∀ d ∈ r, d.Complete text :=
      (keeps_extensionBody hcounts hend hform).bind fun _ => Ensures.pure fun c hc => by
        refine ⟨hc, fun d hd => ?_⟩
        cases hd
        trivial
    exact hbody c ⟨hc, hsecond⟩

/-! ### Executable definitions -/

theorem keeps_fragmentName : Keeps text fragmentName := by
  refine Ensures.given guards_name ?_ (rejects_complain _).ensures
  refine Ensures.bind (Ensures.ask (fun _ hc => hc.live) (·.text = "on")) fun b => ?_
  refine Ensures.ite (fun _ => ?_) fun _ => ?_
  · exact (rejects_complain _).ensures.mono (fun c hc => hc.1.live) fun _ _ h => h
  · exact Ensures.bump.mono (fun c hc => hc.1) fun _ _ h => h

theorem keeps_typeCondition : Keeps text typeCondition := by
  refine Ensures.peekThen fun token _ => Ensures.ofLive ?_
  refine (Ensures.given (Guards.seesWord (by decide)) Ensures.bump
    (rejects_complain _).ensures).bind fun _ => ?_
  exact Ensures.given guards_name Ensures.bump (rejects_complain _).ensures

theorem takes_answerName : Takes text answerName := by
  refine Ensures.bind Ensures.second fun r => ?_
  cases r with
  | none => exact Ensures.pure fun c hc => hc.1.live
  | some token =>
    refine Ensures.givenPure (fun hcolon => ?_) fun _ => Ensures.pure fun c hc => hc.1.live
    have hk : token.kind = .punctuator ':' := of_decide_eq_true hcolon
    refine Ensures.mono (P := fun c => c.Inside text ∧ c.Second token) ?_
      (fun c hc => ⟨hc.1, (hc.2 token rfl).1⟩) fun _ _ h => h
    have htake : Ensures (fun c => (c.Inside text ∧ c.Second token) ∧ c.Ahead (·.kind = .name))
        bump fun _ c => c.Live text ∧ c.Ahead (· = token) :=
      (Ensures.bumpSecond (by rw [hk]; rfl)).mono (fun c hc => hc.1) fun _ _ h => h
    refine (Ensures.nameThen (fun c hc => hc.1.live) htake _).andThen fun _ _ => ?_
    exact Ensures.bump.ofInside (by rw [hk]; simp)

theorem takes_selectedField (levels : Nat) {nested : Parse Unit} (h : Takes text nested) :
    Takes text (selectedField levels nested) := by
  refine takes_answerName.bind fun _ => (keeps_name _).bind fun _ => ?_
  refine (Ensures.whenever (guards_punctuator '(') (takes_arguments levels false).discard).bind
    fun _ => ?_
  refine (keeps_directives levels false).bind fun _ => ?_
  exact Ensures.whenever (guards_punctuator _) h

theorem takes_selectedFragment (levels : Nat) {nested : Parse Unit} (h : Takes text nested)
    (next : Token) : Takes text (selectedFragment levels nested next) := by
  refine Ensures.ite (fun _ => Ensures.bump.bind fun _ => ?_) fun _ => ?_
  · refine (Ensures.given guards_name keeps_fragmentName.inside
      (rejects_complain _).ensures).bind fun _ => ?_
    exact (keeps_directives levels false).bind fun _ => keeps_pure _
  · refine Ensures.ite (fun _ => Ensures.bump.bind fun _ => ?_) fun _ => ?_
    · refine (Ensures.whenever guards_name keeps_typeCondition.inside).bind fun _ => ?_
      refine (keeps_directives levels false).bind fun _ => ?_
      exact Ensures.given (guards_punctuator _) h (rejects_complain _).ensures
    · exact (rejects_complain _).bind.ensures.inside

theorem keeps_selections (levels : Nat) {nested : Parse Unit} (h : Takes text nested)
    (found : Bool) (n : Nat) : Keeps text (selections levels nested found n) := by
  induction n generalizing found with
  | zero => exact keeps_pure _
  | succ n ih =>
    refine Ensures.given guards_name ((takes_selectedField levels h).bind fun _ => ih true) ?_
    refine Ensures.given (Guards.sees (by simp)) ?_ (keeps_pure _)
    refine Ensures.bind Ensures.second fun r => Ensures.mono (P := Cursor.Inside text) ?_
      (fun c hc => hc.1) fun _ _ h => h
    cases r with
    | none => exact (rejects_complainAndDrop _).bind.ensures.inside
    | some next => exact (takes_selectedFragment levels h next).bind fun _ => ih true

theorem takes_selectionSet (levels : Nat) : Takes text (selectionSet levels) := by
  induction levels with
  | zero => exact Ensures.bump.bind fun _ => rejects_tooDeep.ensures
  | succ levels ih =>
    refine Ensures.bump.bind fun _ => (Ensures.demand ?_ _).bind fun _ => keeps_expect _ _
    exact (keeps_inspect _).bind fun n => keeps_selections levels ih false n

theorem takes_variableDefinition : Takes text variableDefinition := by
  refine Ensures.bump.bind fun _ => (keeps_name _).bind fun _ => ?_
  refine Ensures.given (guards_punctuator ':') ?_ (rejects_complain _).ensures
  exact Ensures.bump.bind fun _ => keeps_inputType

theorem takes_variableDefinitions : Takes text variableDefinitions := by
  refine Ensures.bump.bind fun _ => ?_
  refine (Ensures.demand (guards_punctuator '$').keeps _).bind fun _ => ?_
  exact (keeps_many (guards_punctuator '$') takes_variableDefinition).bind fun _ => keeps_expect _ _

theorem completes_operationDefinition : Completes text operationDefinition := by
  refine completes_other ?_ .operation
  refine Ensures.given guards_name (Ensures.inside ?_) ?_
  · refine keeps_operationType.bind fun _ => ?_
    refine (Ensures.whenever guards_name (keeps_name _).discard.inside).bind fun _ => ?_
    refine (Ensures.whenever (guards_punctuator '(') takes_variableDefinitions).bind fun _ => ?_
    refine (keeps_directives maxDepth false).bind fun _ => ?_
    exact Ensures.given (guards_punctuator _) (takes_selectionSet maxDepth)
      (rejects_complainAndDrop _).ensures
  · exact Ensures.given (guards_punctuator _) (takes_selectionSet maxDepth)
      (rejects_complainAndDrop _).ensures

theorem completes_fragmentDefinition :
    Ensures (Cursor.Inside text) fragmentDefinition fun d c => c.Live text ∧ d.Complete text := by
  refine Ensures.bump.bind fun _ => keeps_fragmentName.bind fun _ => ?_
  refine keeps_typeCondition.bind fun _ => (keeps_directives maxDepth false).bind fun _ => ?_
  refine completes_other ?_ .fragment
  exact Ensures.given (guards_punctuator _) (takes_selectionSet maxDepth)
    (rejects_complain _).ensures

/-! ## Documents -/

theorem completes_some {p : Parse Definition}
    (h : Ensures (Cursor.Inside text) p fun d c => c.Live text ∧ d.Complete text) :
    CompletesTop text (some <$> p) :=
  Ensures.map (h.weaken fun d c hd => ⟨hd.1, fun d' hd' => by cases hd'; exact hd.2⟩)

theorem completes_definition (word : String) : CompletesTop text (definition word) := by
  unfold definition
  split
  · exact completes_some completes_enumDefinition.inside
  · exact completes_some completes_inputDefinition.inside
  · exact completes_some completes_interfaceDefinition.inside
  · exact completes_some completes_objectDefinition.inside
  · exact completes_some completes_scalarDefinition.inside
  · exact completes_some completes_unionDefinition.inside
  · exact completes_some completes_schemaDefinition.inside
  · exact completes_some completes_directiveDefinition.inside
  · exact completes_extension
  · exact completes_some completes_fragmentDefinition
  · exact completes_some completes_operationDefinition.inside
  · exact completes_some completes_operationDefinition.inside
  · exact completes_some completes_operationDefinition.inside
  · exact completes_some completes_operationDefinition.inside
  · exact completes_fault (rejects_complainAndDrop _)

theorem completes_topLevel : CompletesTop text topLevel := by
  refine Ensures.peekInside fun token => ?_
  dsimp only
  split
  · refine Ensures.bind Ensures.second fun r => Ensures.mono (P := Cursor.Inside text) ?_
      (fun c hc => hc.1) fun _ _ h => h
    cases r with
    | none => exact completes_fault (rejects_complainAndDrop _)
    | some next => exact completes_definition next.text
  · exact completes_definition token.text
  · exact completes_definition token.text
  · exact completes_fault (rejects_complainAndDrop _)

theorem guards_hasMore : Guards text hasMore :=
  Guards.of_ask fun _ _ ht => of_decide_eq_true ht

theorem ensures_document :
    Ensures (Cursor.Live text) document fun d _ => d.Complete text := by
  refine Ensures.skip.bind fun _ => (Ensures.demand guards_hasMore.keeps _).bind fun _ => ?_
  refine (Ensures.many guards_hasMore completes_topLevel).andThen fun rs hrs => ?_
  refine Ensures.pure fun c _ d hd => ?_
  obtain ⟨r, hr, rfl⟩ := List.mem_filterMap.1 hd
  exact hrs _ hr d rfl

/-- The tree of a text without complaints has no gaps. -/
theorem complete_of_clean (h : (parse text).2 = []) : (parse text).1.Complete text :=
  ensures_document _ (Cursor.live_start text) (List.reverse_eq_nil_iff.1 h)

end SchemaCatalog.Sdl
