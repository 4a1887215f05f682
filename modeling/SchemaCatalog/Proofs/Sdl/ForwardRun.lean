import Mathlib.Tactic.FinCases
import SchemaCatalog.Proofs.Sdl.CleanRun
import SchemaCatalog.Sdl.Grammar

/-!
# SchemaCatalog.Proofs.Sdl.ForwardRun

What the rules read from lexemes that are known.

`Parse.Reads p s a s'`: a run of `p` that starts at the station `s` gives `a`, complains about
nothing and ends at `s'`. A station is what is left to read and where the last token ended; all
else of the cursor stays as it was, and its bound has to leave room for the lexemes at hand, so
that a repetition is not cut off. There is one rule for each way to combine steps and for each
small step, as for clean runs.

The lexemes come from texts: `Lexeme.scanFrom_name` and its like say how a text that starts with
a name, a punctuator or a space is cut.
-/

namespace SchemaCatalog.Sdl

/-! ## Cutting known texts -/

namespace Token

def word (text : String) (offset : Nat) : Token := ⟨.name, text, offset⟩

def mark (d : Char) (offset : Nat) : Token := ⟨.punctuator d, String.ofList [d], offset⟩

def space (offset : Nat) : Token := ⟨.blank, " ", offset⟩

def ending (offset : Nat) : Token := ⟨.endOfInput, "", offset⟩

theorem regular_mark (d : Char) (offset : Nat) : (mark d offset).Regular := by
  refine ⟨by simp [mark], ?_, by simp [mark]⟩
  intro c hc
  cases hc
  exact String.toList_ofList

end Token

namespace Lexeme

/-- A text that does not go on with a name. -/
def EndsName (cs : List Char) : Prop := cs.takeWhile isNamePart = []

theorem endsName_cons {d : Char} (h : isNamePart d = false) (cs : List Char) :
    EndsName (d :: cs) := by
  simp [EndsName, h]

theorem not_isPunctuator_of_isNameStart {c : Char} (h : isNameStart c = true) :
    isPunctuator c = false := by
  rw [Bool.eq_false_iff]
  intro hp
  rw [isPunctuator, List.contains_iff_mem] at hp
  fin_cases hp <;> exact absurd h (by decide)

theorem takeWhile_append_of_all {p : Char → Bool} {cs ds : List Char} (hcs : cs.all p = true)
    (hds : ds.takeWhile p = []) : (cs ++ ds).takeWhile p = cs := by
  rw [List.takeWhile_append_of_pos (by simpa using hcs), hds, List.append_nil]

/-- A name stands first. -/
theorem scanFrom_name {n cs : List Char} (offset : Nat) (hn : isName n = true) (hcs : EndsName cs) :
    scanFrom offset (n ++ cs) = .token (.word (String.ofList n) offset) ::
      scanFrom (offset + (String.ofList n).utf8ByteSize) cs := by
  cases n with
  | nil => cases hn
  | cons c part =>
    obtain ⟨hstart, hpart⟩ := Bool.and_eq_true_iff.1 hn
    have hm : measure c (part ++ cs) = (.ok .name, part.length + 1) := by
      simp [measure, not_isPunctuator_of_isNameStart hstart, hstart,
        takeWhile_append_of_all hpart hcs]
    rw [List.cons_append, scanFrom_cons, hm, Nat.add_sub_cancel, List.take_left, List.drop_left]
    rfl

/-- A punctuator stands first. -/
theorem scanFrom_punctuator {d : Char} (offset : Nat) (hd : isPunctuator d = true)
    (cs : List Char) :
    scanFrom offset (d :: cs) =
      .token (.mark d offset) :: scanFrom (offset + (String.ofList [d]).utf8ByteSize) cs := by
  have hm : measure d cs = (.ok (.punctuator d), 1) := by simp [measure, hd]
  rw [scanFrom_cons, hm]
  rfl

/-- A space stands first, with nothing blank behind it. -/
theorem scanFrom_space {cs : List Char} (offset : Nat) (hcs : cs.takeWhile isBlank = []) :
    scanFrom offset (' ' :: cs) = .token (.space offset) :: scanFrom (offset + 1) cs := by
  have hm : measure ' ' cs = (.ok .blank, 1) := by
    have h₁ : isPunctuator ' ' = false := by decide
    have h₂ : isNameStart ' ' = false := by decide
    have h₃ : isBlank ' ' = true := by decide
    simp [measure, h₁, h₂, h₃, hcs]
  rw [scanFrom_cons, hm]
  rfl

end Lexeme

/-! ## Reading -/

/-- What is left to read, and where the last token ended. -/
abbrev Station := List Lexeme × Nat

namespace Parse

variable {α β : Type} {s s₁ s₂ : Station}

/-- From the station `s` a run gives `a` without complaints and ends at `s'`. -/
def Reads (p : Parse α) (s : Station) (a : α) (s' : Station) : Prop :=
  s'.1.length ≤ s.1.length ∧ ∀ c : Cursor, c.rest = s.1 → c.reach = s.2 →
    s.1.length ≤ c.bound → p.run c = (a, { c with rest := s'.1, reach := s'.2 })

namespace Reads

theorem pure (a : α) (s : Station) : Reads (Pure.pure a) s a s := by
  refine ⟨Nat.le_refl _, fun c hrest hreach _ => ?_⟩
  rw [← hrest, ← hreach]
  rfl

theorem bind {p : Parse α} {f : α → Parse β} {a : α} {b : β} (hp : Reads p s a s₁)
    (hf : Reads (f a) s₁ b s₂) : Reads (p >>= f) s b s₂ := by
  refine ⟨hf.1.trans hp.1, fun c hrest hreach hbound => ?_⟩
  have hnext := hf.2 { c with rest := s₁.1, reach := s₁.2 } rfl rfl (hp.1.trans hbound)
  change (f (p.run c).1).run (p.run c).2 = _
  rw [hp.2 c hrest hreach hbound]
  exact hnext

theorem map {p : Parse α} {a : α} (f : α → β) (hp : Reads p s a s₁) :
    Reads (f <$> p) s (f a) s₁ :=
  hp.bind (Reads.pure _ _)

theorem givenTrue {test : Parse Bool} {item otherwise : Parse α} {a : α}
    (ht : Reads test s true s₁) (hitem : Reads item s₁ a s₂) :
    Reads (given test item otherwise) s a s₂ :=
  ht.bind hitem

theorem givenFalse {test : Parse Bool} {item otherwise : Parse α} {a : α}
    (ht : Reads test s false s₁) (hotherwise : Reads otherwise s₁ a s₂) :
    Reads (given test item otherwise) s a s₂ :=
  ht.bind hotherwise

/-- What is optional is not there. -/
theorem wheneverFalse {test : Parse Bool} {item : Parse Unit} (ht : Reads test s false s₁) :
    Reads (whenever test item) s () s₁ :=
  ht.givenFalse (Reads.pure _ _)

theorem demand {test : Parse Bool} (ht : Reads test s true s₁) (complaint : String) :
    Reads (demand test complaint) s () s₁ :=
  ht.givenTrue (Reads.pure _ _)

/-! ### Repetition -/

variable {more : Parse Bool} {item : Parse α}

theorem repeatUpToNone (hmore : Reads more s false s) (n : Nat) :
    Reads (repeatUpTo more item n) s [] s := by
  cases n with
  | zero => exact Reads.pure _ _
  | succ n => exact hmore.bind (Reads.pure _ _)

theorem manyNone (hmore : Reads more s false s) : Reads (many more item) s [] s :=
  ⟨Nat.le_refl _, fun c hrest hreach hbound =>
    (repeatUpToNone hmore c.bound).2 c hrest hreach hbound⟩

/-- One item and no more. -/
theorem manyOne {a : α} (hne : s.1 ≠ []) (hmore : Reads more s true s) (hitem : Reads item s a s₁)
    (hend : Reads more s₁ false s₁) : Reads (many more item) s [a] s₁ := by
  refine ⟨hitem.1, fun c hrest hreach hbound => ?_⟩
  have hpos := List.length_pos_iff.2 hne
  obtain ⟨n, hn⟩ := Nat.exists_eq_succ_of_ne_zero (n := c.bound) (by omega)
  have hread : Reads (repeatUpTo more item (n + 1)) s [a] s₁ :=
    hmore.bind <| hitem.bind <| (repeatUpToNone hend n).bind <| Reads.pure _ _
  have hrun := hread.2 c hrest hreach hbound
  rw [← Nat.succ_eq_add_one, ← hn] at hrun
  exact hrun

end Reads

/-! ### Tokens -/

theorem ignored_nil : Ignored [] := by simp [Ignored]

theorem ignored_space (offset : Nat) : Ignored [.token (.space offset)] := by
  intro l hl
  rw [List.mem_singleton] at hl
  exact ⟨_, hl, rfl⟩

section Tokens

variable {t u : Token} {gap rest : List Lexeme} {reach : Nat}

theorem reads_peek : Reads peek (.token t :: rest, reach) (some t) (.token t :: rest, reach) := by
  refine ⟨Nat.le_refl _, fun c hrest hreach _ => ?_⟩
  rw [peek_of_token hrest, ← hreach, ← hrest]

/-- What a test that looks at the next token says. -/
theorem reads_ask {p : Token → Bool} {b : Bool} (h : p t = b) :
    Reads (return (← peek).any p) (.token t :: rest, reach) b (.token t :: rest, reach) := by
  rw [← h]
  exact reads_peek.bind (Reads.pure _ _)

theorem reads_pop (ht : t.kind.isIgnored = false) :
    Reads pop (.token t :: rest, reach) (some t) (rest, t.stop) := by
  refine ⟨Nat.le_succ _, fun c hrest _ _ => ?_⟩
  rw [pop_of_token hrest, advance_of_token hrest ht]

theorem skipList_ignored (hgap : Ignored gap) (hu : u.kind.isIgnored = false)
    (errors : List SyntaxError) :
    Cursor.skipList (gap ++ .token u :: rest) errors = (.token u :: rest, errors) := by
  induction gap with
  | nil => simp [Cursor.skipList, hu]
  | cons l ls ih =>
    obtain ⟨t, rfl, ht⟩ := hgap l List.mem_cons_self
    rw [List.cons_append, Cursor.skipList, if_pos ht]
    exact ih fun l hl => hgap l (List.mem_cons_of_mem _ hl)

theorem reads_skip (hgap : Ignored gap) (hu : u.kind.isIgnored = false) :
    Reads skip (gap ++ .token u :: rest, reach) () (.token u :: rest, reach) := by
  refine ⟨by simp, fun c hrest hreach _ => ?_⟩
  change ((), c.skip) = _
  rw [Cursor.skip, hrest, skipList_ignored hgap hu, ← hreach]

/-- A token and the ignored ones behind it. -/
theorem reads_bump (ht : t.kind.isIgnored = false) (hgap : Ignored gap)
    (hu : u.kind.isIgnored = false) :
    Reads bump (.token t :: (gap ++ .token u :: rest), reach) () (.token u :: rest, t.stop) :=
  (reads_pop ht).bind (reads_skip hgap hu)

theorem reads_name (ht : t.kind = .name) (hgap : Ignored gap) (hu : u.kind.isIgnored = false)
    (complaint : String) (rest : List Lexeme) :
    Reads (name complaint) (.token t :: (gap ++ .token u :: rest), reach) (some t.text)
      (.token u :: rest, t.stop) := by
  have hcounts : t.kind.isIgnored = false := by rw [ht]; rfl
  refine (reads_ask (decide_eq_true ht)).bind <| reads_peek.bind ?_
  exact Reads.bind (reads_bump hcounts hgap hu) (Reads.pure (some t.text) _)

theorem reads_expect {kind : Kind} (hk : t.kind = kind) (ht : t.kind.isIgnored = false)
    (hgap : Ignored gap) (hu : u.kind.isIgnored = false) (label : String) :
    Reads (expect kind label) (.token t :: (gap ++ .token u :: rest), reach) ()
      (.token u :: rest, t.stop) := by
  refine reads_peek.bind ?_
  dsimp only
  rw [if_pos hk]
  exact reads_bump ht hgap hu

theorem reads_withSource {α : Type} {item : Parse α} {a : α} {s : Station}
    (hitem : Reads item (.token t :: rest, reach) a s) :
    Reads (withSource item) (.token t :: rest, reach)
      (a, String.join (((Lexeme.token t :: rest).takeWhile (·.offset < s.2)).map (·.text))) s := by
  refine ⟨hitem.1, fun c hrest hreach hbound => ?_⟩
  have hrun := hitem.2 c hrest hreach hbound
  have hsource : (withSource item).run c = (((item.run (peek.run c).2).1, String.join
      (((peek.run c).2.rest.takeWhile (·.offset < (item.run (peek.run c).2).2.reach)).map
        (·.text))), (item.run (peek.run c).2).2) := rfl
  rw [hsource, peek_of_token hrest, hrun, hrest]

end Tokens

/-! ## Texts of one object type -/

section Shell

variable {gap gap' rest rest' : List Lexeme} {u : Token} {reach reach' : Nat} {s : Station}

/-- A block of one item. -/
theorem reads_block {α : Type} {item : Parse α} {a : α} {opening first close : Token}
    {closing : Char} (hopening : opening.kind.isIgnored = false) (hgap : Ignored gap)
    (hfirst : itemStart.contains first.kind = true)
    (hitem : Reads item (.token first :: rest, opening.stop) a
      (.token close :: (gap' ++ .token u :: rest'), reach'))
    (hclose : close.kind = .punctuator closing) (hcounts : close.kind.isIgnored = false)
    (hgap' : Ignored gap') (hu : u.kind.isIgnored = false) (label complaint : String) :
    Reads (block closing label complaint item)
      (.token opening :: (gap ++ .token first :: rest), reach)
      [a] (.token u :: rest', close.stop) := by
  have hfirstCounts : first.kind.isIgnored = false := by
    rw [List.contains_iff_mem] at hfirst
    rcases List.mem_pair.1 hfirst with h | h <;> rw [h] <;> rfl
  have hend : itemStart.contains close.kind = false := by
    rw [hclose]
    rfl
  refine (reads_bump hopening hgap hfirstCounts).bind <|
    (Reads.demand (reads_ask hfirst) complaint).bind <|
    (Reads.manyOne (by simp) (reads_ask hfirst) hitem (reads_ask hend)).bind <|
    (reads_expect hclose hcounts hgap' hu label).bind (Reads.pure _ _)

/-- An object type without description, interfaces and directives. -/
theorem reads_objectDefinition {word n opening : Token} {fs : List FieldDefinition}
    (hword : word.kind = .name) (htext : word.text = "type") (hn : n.kind = .name)
    (hopening : opening.kind = .punctuator '\x7b') (hregular : opening.Regular)
    (hgap : Ignored gap) (hgap' : Ignored gap')
    (hfields : Reads fields (.token opening :: rest, n.stop) fs s) :
    Reads objectDefinition
      (.token word :: (gap ++ .token n :: (gap' ++ .token opening :: rest)), reach)
      (.object ⟨some n.text, [], fs⟩) s := by
  have hbrace : opening.text ≠ "implements" := by
    intro h
    have := hregular.punctuator _ hopening
    rw [h] at this
    cases this
  have hwordCounts : word.kind.isIgnored = false := by rw [hword]; rfl
  have hnCounts : n.kind.isIgnored = false := by rw [hn]; rfl
  have hopeningCounts : opening.kind.isIgnored = false := by rw [hopening]; rfl
  have hhead : Reads (definitionHead "type" "expected a name")
      (.token word :: (gap ++ .token n :: (gap' ++ .token opening :: rest)), reach) (some n.text)
      (.token opening :: rest, n.stop) := by
    refine (Reads.wheneverFalse (reads_ask (by rw [hword]; rfl))).bind <|
      (Reads.givenTrue (reads_ask (decide_eq_true htext))
        (reads_bump hwordCounts hgap hnCounts)).bind ?_
    exact reads_name hn hgap' hopeningCounts "expected a name" rest
  refine Reads.bind (hhead.bind <|
    (Reads.givenFalse (reads_ask (decide_eq_false hbrace)) (Reads.pure [] _)).bind <|
    (Reads.manyNone (reads_ask (by rw [hopening]; rfl))).bind <|
    (Reads.givenTrue (reads_ask (by rw [hopening]; rfl)) hfields).bind (Reads.pure _ _))
    (Reads.pure _ _)

theorem reads_topLevel {word : Token} {d : Definition} (hword : word.kind = .name)
    (htext : word.text = "type") (h : Reads objectDefinition (.token word :: rest, reach) d s) :
    Reads topLevel (.token word :: rest, reach) (some d) s := by
  refine reads_peek.bind ?_
  dsimp only
  rw [hword, htext]
  exact h.map some

/-- A document of one definition. -/
theorem reads_document {first last : Token} {d : Definition}
    (hfirst : first.kind.isIgnored = false) (hmore : first.kind ≠ .endOfInput)
    (hlast : last.kind = .endOfInput)
    (h : Reads topLevel (.token first :: rest, reach) (some d) ([.token last], reach')) :
    Reads document (.token first :: rest, reach) ⟨[d]⟩ ([.token last], reach') := by
  refine (reads_skip ignored_nil hfirst).bind <|
    (Reads.demand (reads_ask (decide_eq_true hmore)) _).bind <|
    (Reads.manyOne (by simp) (reads_ask (decide_eq_true hmore)) h
      (reads_ask (by rw [hlast]; rfl))).bind (Reads.pure _ _)

theorem parse_of_reads {text : String} {d : Document}
    (h : Reads document (Lexeme.scan text, 0) d s) : parse text = (d, []) := by
  have hrun := h.2 (Cursor.start (Lexeme.scan text)) rfl rfl (Nat.le_refl _)
  rw [parse, hrun]
  rfl

end Shell

end Parse

end SchemaCatalog.Sdl
