import SchemaCatalog.Proofs.Sdl.TypeNotation

/-!
# SchemaCatalog.Proofs.Sdl.ClashText

A text that declares one name as an object type and as a scalar, followed through the grammar.

Neither definition has anything but its name, so all that the rules find behind the name is the
word of the next definition or the end. The word does not start what may follow a name, whatever
the name is, which can be such a word itself.
-/

namespace SchemaCatalog.Sdl

open Parse Lexeme

/-! ## Several items -/

namespace Parse.Reads

variable {α : Type} {more : Parse Bool} {item : Parse α} {a b : α} {as : List α}
  {s s₁ s₂ : Station}

theorem repeatUpToCons {n : Nat} (hmore : Reads more s true s) (hitem : Reads item s a s₁)
    (hrest : Reads (repeatUpTo more item n) s₁ as s₂) :
    Reads (repeatUpTo more item (n + 1)) s (a :: as) s₂ :=
  hmore.bind <| hitem.bind <| hrest.bind <| Reads.pure _ _

/-- Two items and no more. -/
theorem manyTwo (hlong : 2 ≤ s.1.length) (hmore : Reads more s true s)
    (hitem : Reads item s a s₁) (hmore₁ : Reads more s₁ true s₁) (hitem₁ : Reads item s₁ b s₂)
    (hend : Reads more s₂ false s₂) : Reads (many more item) s [a, b] s₂ := by
  refine ⟨hitem₁.1.trans hitem.1, fun c hrest hreach hbound => ?_⟩
  obtain ⟨n, hn⟩ := Nat.exists_eq_add_of_le' (hlong.trans hbound)
  have hread := repeatUpToCons hmore hitem (repeatUpToCons hmore₁ hitem₁ (repeatUpToNone hend n))
  have hrun := hread.2 c hrest hreach hbound
  rw [← hn] at hrun
  exact hrun

end Parse.Reads

/-! ## Definitions that are names -/

section Named

variable {gap gap' rest : List Lexeme} {word n u : Token} {reach : Nat}

theorem reads_definitionHead (hword : word.kind = .name) (hn : n.kind = .name)
    (hgap : Ignored gap) (hgap' : Ignored gap') (hu : u.kind.isIgnored = false)
    (complaint : String) (rest : List Lexeme) (reach : Nat) :
    Reads (definitionHead word.text complaint)
      (.token word :: (gap ++ .token n :: (gap' ++ .token u :: rest)), reach) (some n.text)
      (.token u :: rest, n.stop) := by
  have hwordCounts : word.kind.isIgnored = false := by rw [hword]; rfl
  have hnCounts : n.kind.isIgnored = false := by rw [hn]; rfl
  refine (Reads.wheneverFalse (reads_ask (by rw [hword]; rfl))).bind <|
    (Reads.givenTrue (reads_ask (decide_eq_true rfl))
      (reads_bump hwordCounts hgap hnCounts)).bind ?_
  exact reads_name hn hgap' hu complaint rest

theorem reads_noDirectives (hu : u.kind ≠ .punctuator '@') :
    Reads constDirectives (.token u :: rest, reach) [] (.token u :: rest, reach) :=
  Reads.manyNone (reads_ask (decide_eq_false hu))

/-- An object type without interfaces, directives and fields. -/
theorem reads_objectName (hword : word.kind = .name) (htext : word.text = "type")
    (hn : n.kind = .name) (hgap : Ignored gap) (hgap' : Ignored gap') (hu : u.kind = .name)
    (hother : u.text ≠ "implements") (rest : List Lexeme) (reach : Nat) :
    Reads topLevel (.token word :: (gap ++ .token n :: (gap' ++ .token u :: rest)), reach)
      (some (.object ⟨some n.text, [], []⟩)) (.token u :: rest, n.stop) := by
  have hhead := reads_definitionHead hword hn hgap hgap' (by rw [hu]; rfl) "expected a name" rest
    reach
  rw [htext] at hhead
  refine reads_topLevel hword htext (Reads.bind (hhead.bind ?_) (Reads.pure _ _))
  exact (Reads.givenFalse (reads_ask (decide_eq_false hother)) (Reads.pure [] _)).bind <|
    (reads_noDirectives (by rw [hu]; decide)).bind <|
    (Reads.givenFalse (reads_ask (by rw [hu]; rfl)) (Reads.pure [] _)).bind (Reads.pure _ _)

/-- A scalar without directives. -/
theorem reads_scalarName (hword : word.kind = .name) (htext : word.text = "scalar")
    (hn : n.kind = .name) (hgap : Ignored gap) (hgap' : Ignored gap')
    (hu : u.kind.isIgnored = false) (hother : u.kind ≠ .punctuator '@') (rest : List Lexeme)
    (reach : Nat) :
    Reads topLevel (.token word :: (gap ++ .token n :: (gap' ++ .token u :: rest)), reach)
      (some (.scalar ⟨some n.text⟩)) (.token u :: rest, n.stop) := by
  have hhead := reads_definitionHead hword hn hgap hgap' hu "expected a Name" rest reach
  rw [htext] at hhead
  refine reads_peek.bind ?_
  dsimp only
  rw [hword, htext]
  exact Reads.map some (hhead.bind ((reads_noDirectives hother).bind (Reads.pure _ _)))

/-- A document of two definitions. -/
theorem reads_document_two {first second last : Token} {rest' : List Lexeme} {d e : Definition}
    {reach' reach'' : Nat} (hfirst : first.kind.isIgnored = false)
    (hmore : first.kind ≠ .endOfInput) (hmore' : second.kind ≠ .endOfInput)
    (hlast : last.kind = .endOfInput) (hlong : rest ≠ [])
    (hd : Reads topLevel (.token first :: rest, reach) (some d) (.token second :: rest', reach'))
    (he : Reads topLevel (.token second :: rest', reach') (some e) ([.token last], reach'')) :
    Reads document (.token first :: rest, reach) ⟨[d, e]⟩ ([.token last], reach'') := by
  have htwo : 2 ≤ (Lexeme.token first :: rest).length :=
    Nat.succ_le_succ (List.length_pos_iff.2 hlong)
  refine (reads_skip ignored_nil hfirst).bind <|
    (Reads.demand (reads_ask (decide_eq_true hmore)) _).bind <|
    (Reads.manyTwo htwo (reads_ask (decide_eq_true hmore)) hd (reads_ask (decide_eq_true hmore')) he
      (reads_ask (by rw [hlast]; rfl))).bind (Reads.pure _ _)

end Named

/-! ## The text -/

/-- The text that declares a name as an object type and as a scalar. -/
def clashText (raw : String) : String := "type " ++ raw ++ " scalar " ++ raw

/-- The lexemes of the text; the ones behind the first name start at the given offsets. -/
def clashLexemes (raw : String) (space scalar space' name last : Nat) : List Lexeme :=
  .token (.word "type" 0) :: ([.token (.space 4)] ++ .token (.word raw 5) ::
    ([.token (.space space)] ++ .token (.word "scalar" scalar) ::
      ([.token (.space space')] ++ .token (.word raw name) :: ([] ++ [.token (.ending last)]))))

theorem scan_clashText {raw : String} (hraw : isName raw.toList = true) :
    ∃ space scalar space' name last,
      scan (clashText raw) = clashLexemes raw space scalar space' name last := by
  have hchars : (clashText raw).toList = "type".toList ++ ' ' :: (raw.toList ++ ' ' ::
      ("scalar".toList ++ ' ' :: (raw.toList ++ []))) := by
    simp [clashText]
  have hblank : ∀ cs, (raw.toList ++ cs).takeWhile isBlank = [] :=
    takeWhile_isBlank_chars (t := .named raw) hraw
  rw [scan, hchars, scanFrom_name 0 (by decide) (endsName_cons (by decide) _),
    scanFrom_space _ (hblank _), scanFrom_name _ hraw (endsName_cons (by decide) _),
    scanFrom_space _ (by rfl), scanFrom_name _ (by decide) (endsName_cons (by decide) _),
    scanFrom_space _ (hblank _), scanFrom_name _ hraw (by rfl), scanFrom_nil]
  simp only [String.ofList_toList]
  exact ⟨_, _, _, _, _, rfl⟩

theorem reads_clashDocument (raw : String) (space scalar space' name last : Nat) :
    Reads document (clashLexemes raw space scalar space' name last, 0)
      ⟨[.object ⟨some raw, [], []⟩, .scalar ⟨some raw⟩]⟩
      ([.token (.ending last)], (Token.word raw name).stop) := by
  have hother : (Token.word "scalar" scalar).text ≠ "implements" :=
    show "scalar" ≠ "implements" by decide
  have hend : (Token.ending last).kind ≠ .punctuator '@' :=
    show Kind.endOfInput ≠ .punctuator '@' by decide
  have hmore : (Token.word "scalar" scalar).kind ≠ .endOfInput :=
    show Kind.name ≠ .endOfInput by decide
  exact reads_document_two rfl (by decide) hmore rfl (by simp)
    (reads_objectName rfl rfl rfl (ignored_space 4) (ignored_space space) rfl hother _ 0)
    (reads_scalarName rfl rfl rfl (ignored_space space') ignored_nil rfl hend [] _)

/-- The text is read as the two definitions. -/
theorem parse_clashText {raw : String} (hraw : isName raw.toList = true) :
    parse (clashText raw) = (⟨[.object ⟨some raw, [], []⟩, .scalar ⟨some raw⟩]⟩, []) := by
  obtain ⟨space, scalar, space', name, last, hscan⟩ := scan_clashText hraw
  have hread := reads_clashDocument raw space scalar space' name last
  rw [← hscan] at hread
  exact parse_of_reads hread

end SchemaCatalog.Sdl
