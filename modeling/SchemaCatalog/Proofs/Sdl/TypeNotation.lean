import SchemaCatalog.Proofs.Sdl.Completeness
import SchemaCatalog.Proofs.Sdl.ForwardRun

/-!
# SchemaCatalog.Proofs.Sdl.TypeNotation

Types and their notation.

Reading a type that was written gives the type back, and writing a type that was read gives its
source text back, up to ignored tokens. The second half is `TypeWritten`, which holds of every
field of an accepted text. The first half follows a text of one field through the whole grammar:
the notation is cut into the tokens that spell the type (`exists_spells`), and the rule for types
reads those (`reads_typeAt`). There the induction needs to know more of a type without an
exclamation mark than that it is read: one may still follow, so what the end of the type makes of
its tree is left open (`ReadsBare`).
-/

namespace SchemaCatalog.Sdl

open Parse Lexeme

/-! ## The tokens of a type -/

/-- The lexemes are the tokens of the notation of a type. -/
inductive Spells : TypeRef → List Lexeme → Prop
  | named (t : Token) (h : t.kind = .name) : Spells (.named t.text) [.token t]
  | list {item : TypeRef} {ls : List Lexeme} (opening closing : Token)
      (hopening : opening.kind = .punctuator '[') (hclosing : closing.kind = .punctuator ']')
      (h : Spells item ls) : Spells (.list item) (.token opening :: (ls ++ [.token closing]))
  | nonNull {inner : TypeRef} {ls : List Lexeme} (bang : Token)
      (hbang : bang.kind = .punctuator '!') (h : Spells inner ls) :
      Spells (.nonNull inner) (ls ++ [.token bang])

theorem exists_spells (t : TypeRef) (hname : isName t.namedType.toList = true) {cs : List Char}
    (hcs : EndsName cs) (offset : Nat) :
    ∃ ls offset', Spells t ls ∧ scanFrom offset (t.chars ++ cs) = ls ++ scanFrom offset' cs := by
  induction t generalizing cs offset with
  | named n =>
    have hspells := Spells.named (.word n offset) rfl
    have hscan := scanFrom_name offset hname hcs
    rw [TypeRef.namedType, String.ofList_toList] at hscan
    exact ⟨_, _, hspells, hscan⟩
  | list item ih =>
    obtain ⟨ls, offset', hls, hscan⟩ :=
      ih hname (endsName_cons (d := ']') (by decide) cs)
        (offset + (String.ofList ['[']).utf8ByteSize)
    rw [scanFrom_punctuator offset' (by decide)] at hscan
    refine ⟨_, offset' + (String.ofList [']']).utf8ByteSize, .list (.mark '[' offset)
      (.mark ']' offset') rfl rfl hls, ?_⟩
    rw [TypeRef.chars, List.cons_append, scanFrom_punctuator offset (by decide), List.append_assoc,
      List.singleton_append, hscan, List.cons_append, List.append_assoc, List.singleton_append]
  | nonNull inner ih =>
    obtain ⟨ls, offset', hls, hscan⟩ :=
      ih hname (endsName_cons (d := '!') (by decide) cs) offset
    rw [scanFrom_punctuator offset' (by decide)] at hscan
    refine ⟨_, offset' + (String.ofList ['!']).utf8ByteSize,
      .nonNull (.mark '!' offset') rfl hls, ?_⟩
    rw [TypeRef.chars, List.append_assoc, List.singleton_append, hscan, List.append_assoc,
      List.singleton_append]

theorem Spells.head {t : TypeRef} {ls : List Lexeme} (h : Spells t ls) :
    ∃ first rest, ls = .token first :: rest ∧ typeStart.contains first.kind = true := by
  induction h with
  | named t h => exact ⟨_, [], rfl, by rw [h]; rfl⟩
  | list opening closing hopening _ _ _ => exact ⟨_, _, rfl, by rw [hopening]; rfl⟩
  | nonNull bang _ _ ih =>
    obtain ⟨first, rest, rfl, hfirst⟩ := ih
    exact ⟨first, _, List.cons_append .., hfirst⟩

theorem counts_of_typeStart {t : Token} (h : typeStart.contains t.kind = true) :
    t.kind.isIgnored = false := by
  rw [List.contains_iff_mem] at h
  rcases List.mem_pair.1 h with h | h <;> rw [h] <;> rfl

/-! ## Reading the tokens of a type -/

section ReadType

variable {gap rest : List Lexeme} {u bang : Token} {node : TypeNode} {reach : Nat}

theorem reads_typeEnd (hgap : Ignored gap) (hu : u.kind.isIgnored = false)
    (hother : u.kind ≠ .punctuator '!') :
    Reads (typeEnd node) (gap ++ .token u :: rest, reach) node (.token u :: rest, reach) := by
  refine (reads_skip hgap hu).bind <| (reads_ask (decide_eq_false hother)).bind ?_
  exact Reads.bind (reads_skip ignored_nil hu) (Reads.pure _ _)

theorem reads_typeEnd_bang {gap' : List Lexeme} (hgap' : Ignored gap')
    (hbang : bang.kind = .punctuator '!') (hgap : Ignored gap) (hu : u.kind.isIgnored = false) :
    Reads (typeEnd node) (gap' ++ .token bang :: (gap ++ .token u :: rest), reach) (.nonNull node)
      (.token u :: rest, bang.stop) := by
  have hcounts : bang.kind.isIgnored = false := by rw [hbang]; rfl
  refine (reads_skip hgap' hcounts).bind <| (reads_ask (decide_eq_true hbang)).bind ?_
  exact (reads_pop hcounts).bind <| Reads.bind (reads_skip hgap hu) (Reads.pure _ _)

/-- The rule for types reads the tokens of a type and what is ignored behind them. -/
def ReadsType (t : TypeRef) : Prop :=
  ∀ (levels : Nat) (ls gap : List Lexeme) (u : Token) (rest : List Lexeme) (reach : Nat),
    t.listDepth ≤ levels → Spells t ls → Ignored gap → u.kind.isIgnored = false →
    u.kind ≠ .punctuator '!' →
    ∃ reach', Reads (typeAt levels) (ls ++ (gap ++ .token u :: rest), reach) (t.node, none)
      (.token u :: rest, reach')

/-- The rule for types reads the tokens of a type and leaves the rest to the end of the type. -/
def ReadsBare (t : TypeRef) : Prop :=
  ∀ (levels : Nat) (ls gap : List Lexeme) (u : Token) (rest : List Lexeme) (reach : Nat)
    (node : TypeNode) (ls' : List Lexeme),
    t.listDepth ≤ levels → Spells t ls → Ignored gap → u.kind.isIgnored = false →
    (∀ gap reach, Ignored gap → ∃ reach',
      Reads (typeEnd t.node) (gap ++ .token u :: rest, reach) node (ls', reach')) →
    ∃ reach', Reads (typeAt levels) (ls ++ (gap ++ .token u :: rest), reach) (node, none)
      (ls', reach')

theorem typeLevel_name (item? : Option (Parse (TypeNode × Option Token))) {t : Token}
    {a : TypeNode} {s : Station} (ht : t.kind = .name)
    (h : Reads (typeEnd (.named t.text)) (rest, t.stop) a s) :
    Reads (typeLevel item?) (.token t :: rest, reach) (a, none) s := by
  refine reads_peek.bind ?_
  dsimp only
  rw [ht]
  exact (reads_pop (by rw [ht]; rfl)).bind <| h.bind (Reads.pure _ _)

theorem readsBare_named (name : String) : ReadsBare (.named name) := by
  intro levels ls gap u rest reach node ls' _ hls hgap _ hend
  cases hls with
  | @named t ht =>
    obtain ⟨reach', hread⟩ := hend gap t.stop hgap
    refine ⟨reach', ?_⟩
    cases levels with
    | zero => exact typeLevel_name _ ht hread
    | succ levels => exact typeLevel_name _ ht hread

theorem readsBare_list {item : TypeRef} (hitem : ReadsType item) : ReadsBare (.list item) := by
  intro levels ls gap u rest reach node ls' hlevels hls hgap hu hend
  cases levels with
  | zero => cases hlevels
  | succ levels =>
    cases hls with
    | @list _ ls opening closing hopening hclosing hls =>
      obtain ⟨first, more, hfirst, hstart⟩ := hls.head
      have hclosed : closing.kind.isIgnored = false := by rw [hclosing]; rfl
      obtain ⟨reach₁, hread⟩ := hitem levels ls [] closing (gap ++ .token u :: rest) opening.stop
        (Nat.le_of_succ_le_succ hlevels) hls ignored_nil hclosed (by rw [hclosing]; decide)
      obtain ⟨reach₂, hread'⟩ := hend [] closing.stop ignored_nil
      refine ⟨reach₂, ?_⟩
      simp only [hfirst, List.cons_append, List.append_assoc, List.nil_append] at hread ⊢
      have hlist : Reads (listType (typeAt levels))
          (.token first :: (more ++ .token closing :: (gap ++ .token u :: rest)), opening.stop)
          (node, none) (ls', reach₂) := by
        refine hread.bind <| Reads.bind (Reads.pure () _) ?_
        exact (reads_expect hclosing hclosed hgap hu "R_BRACK").bind <|
          hread'.bind (Reads.pure _ _)
      refine reads_peek.bind ?_
      dsimp only
      rw [hopening]
      exact (reads_bump (by rw [hopening]; rfl) ignored_nil (counts_of_typeStart hstart)).bind hlist

theorem readsType_of_bare {t : TypeRef} (h : ReadsBare t) : ReadsType t := by
  intro levels ls gap u rest reach hlevels hls hgap hu hother
  exact h levels ls gap u rest reach t.node (.token u :: rest) hlevels hls hgap hu
    fun gap reach hgap => ⟨reach, reads_typeEnd hgap hu hother⟩

theorem reads_typeAt {t : TypeRef} (hdouble : t.NoDoubleNonNull) :
    (t.isNonNull = false → ReadsBare t) ∧ ReadsType t := by
  induction t with
  | named name => exact ⟨fun _ => readsBare_named name, readsType_of_bare (readsBare_named name)⟩
  | list item ih =>
    have hbare := readsBare_list (ih hdouble).2
    exact ⟨fun _ => hbare, readsType_of_bare hbare⟩
  | nonNull inner ih =>
    refine ⟨fun h => absurd h (by simp [TypeRef.isNonNull]), ?_⟩
    intro levels ls gap u rest reach hlevels hls hgap hu _
    have hbare := (ih hdouble.2).1 hdouble.1
    cases hls with
    | @nonNull _ ls bang hbang hls =>
      have hcounts : bang.kind.isIgnored = false := by rw [hbang]; rfl
      have hread := hbare levels ls [] bang (gap ++ .token u :: rest) reach inner.nonNull.node
        (.token u :: rest) hlevels hls ignored_nil hcounts
        fun gap' reach' hgap' => ⟨bang.stop, reads_typeEnd_bang hgap' hbang hgap hu⟩
      rw [List.append_assoc]
      exact hread

theorem reads_type {t : TypeRef} {ls : List Lexeme} (hdouble : t.NoDoubleNonNull)
    (hdepth : t.listDepth ≤ maxDepth) (hls : Spells t ls) (hgap : Ignored gap)
    (hu : u.kind.isIgnored = false) (hother : u.kind ≠ .punctuator '!') (rest : List Lexeme)
    (reach : Nat) :
    ∃ reach', Reads type (ls ++ (gap ++ .token u :: rest), reach) t.node
      (.token u :: rest, reach') := by
  obtain ⟨reach', hread⟩ := (reads_typeAt hdouble).2 maxDepth ls gap u rest reach hdepth hls hgap hu
    hother
  exact ⟨reach', hread.bind <| Reads.bind (Reads.pure () _) (Reads.pure _ _)⟩

end ReadType

/-! ## A text with one field -/

/-- A field without description and arguments, whatever directives it has. -/
theorem reads_field {t : TypeRef} {ls gap gap' : List Lexeme} {n colon u : Token}
    {ds : List Directive} {rest : List Lexeme} {s : Nat → Station}
    (hdouble : t.NoDoubleNonNull) (hdepth : t.listDepth ≤ maxDepth)
    (hls : Spells t ls) (hn : n.kind = .name) (hcolon : colon.kind = .punctuator ':')
    (hgap : Ignored gap) (hgap' : Ignored gap') (hu : u.kind.isIgnored = false)
    (hother : u.kind ≠ .punctuator '!')
    (hds : ∀ reach, Reads constDirectives (.token u :: rest, reach) ds (s reach)) (reach : Nat) :
    ∃ source reach', Reads fieldDefinition
      (.token n :: .token colon :: (gap ++ (ls ++ (gap' ++ .token u :: rest))), reach)
      ⟨some n.text, t.node, source, ds⟩ (s reach') := by
  have hcolonCounts : colon.kind.isIgnored = false := by rw [hcolon]; rfl
  obtain ⟨first, more, hfirst, hstart⟩ := hls.head
  obtain ⟨reach', hread⟩ := reads_type hdouble hdepth hls hgap' hu hother rest colon.stop
  simp only [hfirst, List.cons_append] at hread ⊢
  obtain ⟨source, hsource⟩ : ∃ source, Reads (withSource type)
      (.token first :: (more ++ (gap' ++ .token u :: rest)), colon.stop) (t.node, source)
      (.token u :: rest, reach') := ⟨_, reads_withSource hread⟩
  refine ⟨source, reach', ?_⟩
  have hname : Reads (name "expected a Name") (.token n :: .token colon :: _, reach) _ _ :=
    reads_name hn ignored_nil hcolonCounts "expected a Name"
      (gap ++ .token first :: (more ++ (gap' ++ .token u :: rest)))
  refine Reads.bind (Reads.wheneverFalse (reads_ask (by rw [hn]; rfl))) ?_
  refine hname.bind ?_
  refine Reads.bind (Reads.wheneverFalse (reads_ask (by rw [hcolon]; rfl))) ?_
  refine Reads.givenTrue (reads_ask (by rw [hcolon]; rfl)) ?_
  refine (reads_bump hcolonCounts hgap (counts_of_typeStart hstart)).bind <|
    Reads.givenTrue (reads_ask hstart) <| hsource.bind ?_
  exact (hds reach').bind (Reads.pure _ _)

/-- A field without description, arguments and directives. -/
theorem reads_fieldDefinition {t : TypeRef} {ls gap gap' : List Lexeme} {n colon u : Token}
    (hdouble : t.NoDoubleNonNull) (hdepth : t.listDepth ≤ maxDepth)
    (hls : Spells t ls) (hn : n.kind = .name) (hcolon : colon.kind = .punctuator ':')
    (hgap : Ignored gap) (hgap' : Ignored gap') (hu : u.kind = .punctuator '\x7d')
    (rest : List Lexeme) (reach : Nat) :
    ∃ source reach', Reads fieldDefinition
      (.token n :: .token colon :: (gap ++ (ls ++ (gap' ++ .token u :: rest))), reach)
      ⟨some n.text, t.node, source, []⟩ (.token u :: rest, reach') :=
  reads_field (s := fun reach => (.token u :: rest, reach)) hdouble hdepth hls hn hcolon hgap hgap'
    (by rw [hu]; rfl) (by rw [hu]; decide)
    (fun _ => Reads.manyNone (reads_ask (by rw [hu]; rfl))) reach

/-- The text of an object type with one field. -/
def fieldText (t : TypeRef) : String := "type Q \x7b f: " ++ t.render ++ " \x7d"

theorem not_isBlank_of_isNameStart {c : Char} (h : isNameStart c = true) : isBlank c = false := by
  rw [Bool.eq_false_iff]
  intro hblank
  rw [isBlank, List.contains_iff_mem] at hblank
  fin_cases hblank <;> exact absurd h (by decide)

/-- A notation does not start with a blank. -/
theorem takeWhile_isBlank_chars {t : TypeRef} (hname : isName t.namedType.toList = true)
    (cs : List Char) : (t.chars ++ cs).takeWhile isBlank = [] := by
  induction t generalizing cs with
  | named n =>
    rw [TypeRef.namedType] at hname
    rw [TypeRef.chars]
    cases hn : n.toList with
    | nil =>
      rw [hn] at hname
      cases hname
    | cons c part =>
      rw [hn] at hname
      have hstart := (Bool.and_eq_true_iff.1 hname).1
      simp [not_isBlank_of_isNameStart hstart]
  | list item ih => rfl
  | nonNull inner ih =>
    rw [TypeRef.chars, List.append_assoc]
    exact ih hname _

/-- The lexemes of a text with one field, where `ls` are those of its type. -/
def fieldLexemes (ls : List Lexeme) (offset : Nat) : List Lexeme :=
  .token (.word "type" 0) :: .token (.space 4) :: .token (.word "Q" 5) :: .token (.space 6) ::
    .token (.mark '\x7b' 7) :: .token (.space 8) :: .token (.word "f" 9) ::
    .token (.mark ':' 10) :: .token (.space 11) ::
    (ls ++ [.token (.space offset), .token (.mark '\x7d' (offset + 1)),
      .token (.ending (offset + 2))])

theorem scan_fieldText {t : TypeRef} (hname : isName t.namedType.toList = true) :
    ∃ ls offset, Spells t ls ∧ scan (fieldText t) = fieldLexemes ls offset := by
  obtain ⟨ls, offset, hls, hscan⟩ := exists_spells t hname
    (endsName_cons (d := ' ') (by decide) ['\x7d']) 12
  rw [scanFrom_space offset (by decide), scanFrom_punctuator _ (by decide), scanFrom_nil] at hscan
  have hchars : (fieldText t).toList =
      "type".toList ++ ' ' :: ("Q".toList ++ ' ' :: '\x7b' :: ' ' ::
      ("f".toList ++ ':' :: ' ' :: (t.chars ++ [' ', '\x7d']))) := by
    simp [fieldText, TypeRef.render]
  have hfront : scan (fieldText t) = .token (.word "type" 0) :: .token (.space 4) ::
      .token (.word "Q" 5) :: .token (.space 6) :: .token (.mark '\x7b' 7) ::
      .token (.space 8) :: .token (.word "f" 9) :: .token (.mark ':' 10) ::
      .token (.space 11) :: scanFrom 12 (t.chars ++ [' ', '\x7d']) := by
    rw [scan, hchars, scanFrom_name 0 (by decide) (endsName_cons (by decide) _),
      scanFrom_space _ (by rfl), scanFrom_name _ (by decide) (endsName_cons (by decide) _),
      scanFrom_space _ (by rfl), scanFrom_punctuator _ (by decide), scanFrom_space _ (by rfl),
      scanFrom_name _ (by decide) (endsName_cons (by decide) _), scanFrom_punctuator _ (by decide),
      scanFrom_space _ (takeWhile_isBlank_chars hname _)]
    rfl
  refine ⟨ls, offset, hls, ?_⟩
  rw [hfront, hscan]
  rfl

/-- The text of an object type with one field is read as just that. -/
theorem parse_fieldText {t : TypeRef} (hname : isName t.namedType.toList = true)
    (hdouble : t.NoDoubleNonNull) (hdepth : t.listDepth ≤ maxDepth) :
    ∃ source, parse (fieldText t) =
      (⟨[.object ⟨some "Q", [], [⟨some "f", t.node, source, []⟩]⟩]⟩, []) := by
  obtain ⟨ls, offset, hls, hscan⟩ := scan_fieldText hname
  obtain ⟨source, reach, hfield⟩ := reads_fieldDefinition hdouble hdepth hls
    (rfl : (Token.word "f" 9).kind = _) (rfl : (Token.mark ':' 10).kind = _) (ignored_space 11)
    (ignored_space offset) (rfl : (Token.mark '\x7d' (offset + 1)).kind = _)
    ([] ++ [.token (.ending (offset + 2))]) (Token.mark '\x7b' 7).stop
  refine ⟨source, parse_of_reads (s := ([.token (.ending (offset + 2))], offset + 2)) ?_⟩
  rw [hscan]
  refine reads_document rfl (by decide) rfl <| reads_topLevel rfl rfl <|
    reads_objectDefinition rfl rfl rfl rfl (Token.regular_mark _ _) (ignored_space 4)
      (ignored_space 6) ?_
  refine reads_block ?_ (ignored_space 8) ?_ hfield ?_ ?_ ignored_nil ?_ _ _
  all_goals rfl

/-! ## Reading and writing types -/

/-- Reading a written type gives it back, and writing a type that was read gives its source text
without the ignored tokens. -/
theorem notation_inverse :
    (∀ text, (parse text).2 = [] → ∀ o ∈ (parse text).1.objects, ∀ f ∈ o.fields, ∀ part,
      ∃ t, TypeRef.ofNode part f.type = .ok t ∧ t.render = withoutIgnored f.typeSource ∧
        t.NoDoubleNonNull ∧ f.typeSource.toList <:+: text.toList) ∧
    ∀ t : TypeRef, isName t.namedType.toList = true → t.NoDoubleNonNull →
      t.listDepth ≤ maxDepth →
      (parse (fieldText t)).2 = [] ∧
      ∃ f, (parse (fieldText t)).1 = ⟨[.object ⟨some "Q", [], [f]⟩]⟩ ∧
        f.name = some "f" ∧ ∀ part, TypeRef.ofNode part f.type = .ok t := by
  constructor
  · intro text hclean o ho f hf part
    obtain ⟨definition, hmem, hobject⟩ := List.mem_filterMap.1 ho
    have hcomplete := complete_of_clean hclean definition hmem
    cases definition <;> cases hobject
    obtain ⟨_, t, ht⟩ := hcomplete.2 f hf
    refine ⟨t, ?_, ht.spelling, ht.noDouble, ht.stretch⟩
    rw [ht.node, TypeRef.ofNode_node]
  · intro t hname hdouble hdepth
    obtain ⟨source, hparse⟩ := parse_fieldText hname hdouble hdepth
    rw [hparse]
    exact ⟨rfl, _, rfl, rfl, fun part => TypeRef.ofNode_node part t⟩

/-- A list that is there, of names that need not be. -/
theorem notation_inverse_nonNull_list :
    (parse (fieldText (.nonNull (.list (.named "Int"))))).2 = [] ∧
      ∃ f, (parse (fieldText (.nonNull (.list (.named "Int"))))).1 =
        ⟨[.object ⟨some "Q", [], [f]⟩]⟩ ∧ withoutIgnored f.typeSource = "[Int]!" := by
  obtain ⟨hclean, f, hparse, _, htype⟩ := notation_inverse.2 (.nonNull (.list (.named "Int")))
    (by decide) ⟨rfl, trivial⟩ (by decide)
  have hobject : ObjectType.mk (some "Q") [] [f] ∈
      (parse (fieldText (.nonNull (.list (.named "Int"))))).1.objects := by
    rw [hparse]
    exact List.mem_singleton.2 rfl
  obtain ⟨t, ht, hspelling, _⟩ := notation_inverse.1 _ hclean _ hobject f
    (List.mem_singleton.2 rfl) "field type"
  rw [htype] at ht
  cases ht
  exact ⟨hclean, f, hparse, hspelling.symm⟩

end SchemaCatalog.Sdl
