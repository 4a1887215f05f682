import SchemaCatalog.Proofs.Sdl.QuotedText
import SchemaCatalog.Proofs.Sdl.TypeNotation

/-!
# SchemaCatalog.Proofs.Sdl.AliasText

A text of one field with an alias, followed through the grammar.

A literal is one token, however its text is spelled (`scanFrom_literal`), and it is the source of
the value that is read from it. So the field keeps the literal as it stands, and what the literal
denotes is for the machine for literals to say.
-/

namespace SchemaCatalog.Sdl

open Parse Lexeme
open StringLiteral (Spelled)

/-! ## Literals as tokens -/

/-- Characters between quotes. -/
def quoted (body : List Char) : List Char := '"' :: (body ++ ['"'])

def Token.literal (body : List Char) (offset : Nat) : Token :=
  ⟨.string, String.ofList (quoted body), offset⟩

theorem Lexeme.scanFrom_literal {text body cs : List Char} (offset : Nat) (h : Spelled text body)
    (hcs : cs.head? ≠ some '"') :
    scanFrom offset (quoted body ++ cs) =
      .token (.literal body offset) :: scanFrom (Token.literal body offset).stop cs := by
  have hm : measure '"' (body ++ '"' :: cs) = (.ok .string, body.length + 2) := by
    have h₁ : isPunctuator '"' = false := by decide
    have h₂ : isNameStart '"' = false := by decide
    have h₃ : isBlank '"' = false := by decide
    simp [measure, h₁, h₂, h₃, h.measure hcs, Except.map]
  have hsplit : body ++ '"' :: cs = (body ++ ['"']) ++ cs := by simp
  have hlength : body.length + 2 - 1 = (body ++ ['"']).length := by simp
  have hquoted : quoted body ++ cs = '"' :: (body ++ '"' :: cs) := by simp [quoted]
  rw [hquoted, scanFrom_cons, hm, hlength, hsplit, List.take_left, List.drop_left]
  rfl

/-! ## Directives -/

section Directive

variable {gap gap' rest : List Lexeme} {u : Token} {reach : Nat}

theorem reads_value_string {lit : Token} (hlit : lit.kind = .string) (hgap : Ignored gap)
    (hu : u.kind.isIgnored = false) (depth : Nat) (const drops : Bool) :
    Reads (valueAt depth const drops) (.token lit :: (gap ++ .token u :: rest), reach)
      (some .string) (.token u :: rest, lit.stop) := by
  have hlevel : ∀ item?, Reads (valueLevel item? const drops)
      (.token lit :: (gap ++ .token u :: rest), reach) (some .string)
      (.token u :: rest, lit.stop) := by
    intro item?
    refine reads_peek.bind ?_
    dsimp only
    rw [hlit]
    exact (reads_bump (by rw [hlit]; rfl) hgap hu).bind (Reads.pure _ _)
  cases depth with
  | zero => exact hlevel none
  | succ depth => exact hlevel _

/-- A literal with the next token right behind it is its own source. -/
theorem reads_literalSource {lit : Token} (hlit : lit.kind = .string)
    (hne : lit.offset < lit.stop) (hnext : lit.stop ≤ u.offset) (hu : u.kind.isIgnored = false)
    (depth : Nat) (const drops : Bool) :
    Reads (withSource (valueAt depth const drops)) (.token lit :: .token u :: rest, reach)
      (some .string, lit.text) (.token u :: rest, lit.stop) := by
  have hread : Reads (valueAt depth const drops) (.token lit :: ([] ++ .token u :: rest), reach)
      (some .string) (.token u :: rest, lit.stop) :=
    reads_value_string hlit ignored_nil hu depth const drops
  have hsource := reads_withSource hread
  have hown : String.join (((Lexeme.token lit :: .token u :: rest).takeWhile
      (·.offset < lit.stop)).map (·.text)) = lit.text := by
    -- Of what follows, the next token already starts where the literal stops.
    have hfirst : decide ((Lexeme.token lit).offset < lit.stop) = true := decide_eq_true hne
    have hsecond : decide ((Lexeme.token u).offset < lit.stop) = false :=
      decide_eq_false (Nat.not_lt.2 hnext)
    rw [List.takeWhile_cons, hfirst, List.takeWhile_cons, hsecond, if_pos rfl,
      if_neg Bool.false_ne_true, List.map_singleton, String.join_cons]
    exact String.append_empty
  rw [List.nil_append, hown] at hsource
  exact hsource

/-- A directive with one argument, whose value is a literal. -/
theorem reads_directive {mark n opening a colon lit close : Token}
    (hmark : mark.kind.isIgnored = false) (hn : n.kind = .name)
    (hopening : opening.kind = .punctuator '(') (ha : a.kind = .name)
    (hcolon : colon.kind = .punctuator ':') (hlit : lit.kind = .string)
    (hclose : close.kind = .punctuator ')') (hne : lit.offset < lit.stop)
    (hnext : lit.stop ≤ close.offset) (hgap : Ignored gap) (hgap' : Ignored gap')
    (hu : u.kind.isIgnored = false) (depth : Nat) (const : Bool) :
    Reads (directive depth const)
      (.token mark :: .token n :: .token opening :: .token a :: .token colon ::
        (gap ++ .token lit :: .token close :: (gap' ++ .token u :: rest)), reach)
      ⟨some n.text, [⟨some a.text, some ⟨.string, lit.text⟩⟩]⟩ (.token u :: rest, close.stop) := by
  have hnCounts : n.kind.isIgnored = false := by rw [hn]; rfl
  have hopeningCounts : opening.kind.isIgnored = false := by rw [hopening]; rfl
  have haCounts : a.kind.isIgnored = false := by rw [ha]; rfl
  have hcolonCounts : colon.kind.isIgnored = false := by rw [hcolon]; rfl
  have hlitCounts : lit.kind.isIgnored = false := by rw [hlit]; rfl
  have hcloseCounts : close.kind.isIgnored = false := by rw [hclose]; rfl
  have hargument : Reads (argument depth const)
      (.token a :: .token colon :: (gap ++ .token lit :: .token close ::
        (gap' ++ .token u :: rest)), opening.stop)
      ⟨some a.text, some ⟨.string, lit.text⟩⟩
      (.token close :: (gap' ++ .token u :: rest), lit.stop) := by
    refine (reads_name ha ignored_nil hcolonCounts "expected a Name" _).bind <|
      (reads_ask (decide_eq_true hcolon)).bind ?_
    refine (reads_bump hcolonCounts hgap hlitCounts).bind ?_
    exact (reads_literalSource hlit hne hnext hcloseCounts depth const false).bind
      (Reads.pure _ _)
  have harguments : Reads (arguments depth const)
      (.token opening :: .token a :: .token colon :: (gap ++ .token lit :: .token close ::
        (gap' ++ .token u :: rest)), n.stop)
      [⟨some a.text, some ⟨.string, lit.text⟩⟩] (.token u :: rest, close.stop) := by
    refine (reads_bump hopeningCounts ignored_nil haCounts).bind <|
      (Reads.demand (reads_ask (decide_eq_true ha)) "expected an Argument").bind <|
      (Reads.manyOne (by simp) (reads_ask (decide_eq_true ha)) hargument
        (reads_ask (by rw [hclose]; rfl))).bind ?_
    exact (reads_expect hclose hcloseCounts hgap' hu "R_PAREN").bind (Reads.pure _ _)
  refine (reads_bump hmark ignored_nil hnCounts).bind <|
    (reads_name hn ignored_nil hopeningCounts "expected a Name" _).bind <|
    (reads_ask (decide_eq_true hopening)).bind ?_
  exact harguments.bind (Reads.pure _ _)

end Directive

/-! ## The text -/

/-- The text of an object type with one field, which takes its value from the field that is named
between the quotes. -/
def aliasText (body : List Char) : String :=
  String.ofList ("type T \x7b f: X @jsonAlias(for: ".toList ++ quoted body ++ ") \x7d".toList)

theorem toList_aliasText (body : List Char) : (aliasText body).toList =
    "type T \x7b f: X @jsonAlias(for: ".toList ++ quoted body ++ ") \x7d".toList :=
  String.toList_ofList

def aliasDirective (body : List Char) : Directive :=
  ⟨some "jsonAlias", [⟨some "for", some ⟨.string, String.ofList (quoted body)⟩⟩]⟩

/-- The lexemes of the text, where `stop` is the end of the literal. -/
def aliasLexemes (body : List Char) (stop : Nat) : List Lexeme :=
  .token (.word "type" 0) :: .token (.space 4) :: .token (.word "T" 5) :: .token (.space 6) ::
    .token (.mark '\x7b' 7) :: .token (.space 8) :: .token (.word "f" 9) ::
    .token (.mark ':' 10) :: .token (.space 11) :: .token (.word "X" 12) :: .token (.space 13) ::
    .token (.mark '@' 14) :: .token (.word "jsonAlias" 15) :: .token (.mark '(' 24) ::
    .token (.word "for" 25) :: .token (.mark ':' 28) :: .token (.space 29) ::
    .token (.literal body 30) :: .token (.mark ')' stop) :: .token (.space (stop + 1)) ::
    .token (.mark '\x7d' (stop + 2)) :: [.token (.ending (stop + 3))]

theorem scanFrom_aliasFront {cs : List Char} (hcs : cs.takeWhile isBlank = []) :
    scanFrom 0 ("type T \x7b f: X @jsonAlias(for: ".toList ++ cs) =
      .token (.word "type" 0) :: .token (.space 4) :: .token (.word "T" 5) :: .token (.space 6) ::
      .token (.mark '\x7b' 7) :: .token (.space 8) :: .token (.word "f" 9) ::
      .token (.mark ':' 10) :: .token (.space 11) :: .token (.word "X" 12) ::
      .token (.space 13) :: .token (.mark '@' 14) :: .token (.word "jsonAlias" 15) ::
      .token (.mark '(' 24) :: .token (.word "for" 25) :: .token (.mark ':' 28) ::
      .token (.space 29) :: scanFrom 30 cs := by
  have hchars : "type T \x7b f: X @jsonAlias(for: ".toList ++ cs = "type".toList ++ ' ' ::
      ("T".toList ++ ' ' :: '\x7b' :: ' ' :: ("f".toList ++ ':' :: ' ' :: ("X".toList ++ ' ' ::
        '@' :: ("jsonAlias".toList ++ '(' :: ("for".toList ++ ':' :: ' ' :: cs))))) := by
    simp
  rw [hchars, scanFrom_name 0 (by decide) (endsName_cons (by decide) _),
    scanFrom_space _ (by rfl), scanFrom_name _ (by decide) (endsName_cons (by decide) _),
    scanFrom_space _ (by rfl), scanFrom_punctuator _ (by decide), scanFrom_space _ (by rfl),
    scanFrom_name _ (by decide) (endsName_cons (by decide) _), scanFrom_punctuator _ (by decide),
    scanFrom_space _ (by rfl), scanFrom_name _ (by decide) (endsName_cons (by decide) _),
    scanFrom_space _ (by rfl), scanFrom_punctuator _ (by decide),
    scanFrom_name _ (by decide) (endsName_cons (by decide) _), scanFrom_punctuator _ (by decide),
    scanFrom_name _ (by decide) (endsName_cons (by decide) _), scanFrom_punctuator _ (by decide),
    scanFrom_space _ hcs]
  rfl

theorem scan_aliasText {text body : List Char} (h : Spelled text body) :
    scan (aliasText body) = aliasLexemes body (Token.literal body 30).stop := by
  have hend : ") \x7d".toList = [')', ' ', '\x7d'] := by decide
  rw [scan, toList_aliasText, List.append_assoc, hend,
    scanFrom_aliasFront (by rfl), scanFrom_literal 30 h (by decide)]
  generalize (Token.literal body 30).stop = stop
  rw [scanFrom_punctuator _ (by decide), scanFrom_space _ (by rfl),
    scanFrom_punctuator _ (by decide), scanFrom_nil]
  rfl

theorem lt_stop_literal (body : List Char) (offset : Nat) :
    offset < (Token.literal body offset).stop :=
  Nat.lt_add_of_pos_right (utf8ByteSize_ofList_cons_pos _ _)

/-- What stands behind the type of the field. -/
theorem reads_aliasDirective (body : List Char) {stop : Nat}
    (hstop : (Token.literal body 30).stop ≤ stop) (reach : Nat) :
    Reads constDirectives
      (.token (.mark '@' 14) :: .token (.word "jsonAlias" 15) :: .token (.mark '(' 24) ::
        .token (.word "for" 25) :: .token (.mark ':' 28) :: ([.token (.space 29)] ++
          .token (.literal body 30) :: .token (.mark ')' stop) ::
            ([.token (.space (stop + 1))] ++
              .token (.mark '\x7d' (stop + 2)) :: ([] ++ [.token (.ending (stop + 3))]))), reach)
      [aliasDirective body]
      (.token (.mark '\x7d' (stop + 2)) :: ([] ++ [.token (.ending (stop + 3))]),
        (Token.mark ')' stop).stop) := by
  refine Reads.manyOne (by simp) (reads_ask rfl) ?_ (reads_ask rfl)
  exact reads_directive rfl rfl rfl rfl rfl rfl rfl (lt_stop_literal body 30) hstop
    (ignored_space 29) (ignored_space (stop + 1)) rfl maxDepth true

theorem reads_aliasDocument (body : List Char) {stop : Nat}
    (hstop : (Token.literal body 30).stop ≤ stop) :
    ∃ source reach, Reads document (aliasLexemes body stop, 0) ⟨[.object ⟨some "T", [],
      [⟨some "f", .named "X", source, [aliasDirective body]⟩]⟩]⟩
      ([.token (.ending (stop + 3))], reach) := by
  obtain ⟨source, reach, hfield⟩ := reads_field (s := fun _ => (_, _)) (t := .named "X") trivial
    (by decide) (.named (.word "X" 12) rfl) (rfl : (Token.word "f" 9).kind = _)
    (rfl : (Token.mark ':' 10).kind = _) (ignored_space 11) (ignored_space 13) rfl (by decide)
    (fun reach => reads_aliasDirective body hstop reach) (Token.mark '\x7b' 7).stop
  refine ⟨source, (Token.mark '\x7d' (stop + 2)).stop, ?_⟩
  refine reads_document rfl (by decide) rfl <| reads_topLevel rfl rfl <|
    reads_objectDefinition rfl rfl rfl rfl (Token.regular_mark _ _) (ignored_space 4)
      (ignored_space 6) ?_
  refine reads_block ?_ (ignored_space 8) ?_ hfield ?_ ?_ ignored_nil ?_ _ _
  all_goals rfl

/-- The text is read as one field with just this directive, whose value is the literal. -/
theorem parse_aliasText {text body : List Char} (h : Spelled text body) :
    ∃ source, parse (aliasText body) = (⟨[.object ⟨some "T", [],
      [⟨some "f", .named "X", source, [aliasDirective body]⟩]⟩]⟩, []) := by
  obtain ⟨source, reach, hread⟩ := reads_aliasDocument body (Nat.le_refl _)
  rw [← scan_aliasText h] at hread
  exact ⟨source, parse_of_reads hread⟩

end SchemaCatalog.Sdl
