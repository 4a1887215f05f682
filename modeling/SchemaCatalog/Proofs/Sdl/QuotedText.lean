import SchemaCatalog.Sdl.StringLiteral

/-!
# SchemaCatalog.Proofs.Sdl.QuotedText

Texts written as quoted literals.

There are many ways to write a text, since an escape may be short or by number, and its digits
capital or small. `Spelled` is all of them. The machine for quoted literals goes through any
spelling without complaint and completes the text that is spelled (`Spelled.passes`), so the
literal is measured as it stands and denotes the text. What the machine does on a run is followed
once, in `Passes`, for the measure and the text alike.
-/

namespace SchemaCatalog.Sdl.StringLiteral

open Text

/-! ## Spellings -/

/-- The ways to write a character inside quotes. -/
inductive Glyph : Char → List Char → Prop
  | plain (c : Char) (hquote : c ≠ '"') (hback : c ≠ '\\') (h : 0x20 ≤ c.toNat) : Glyph c [c]
  | quote : Glyph '"' ['\\', '"']
  | back : Glyph '\\' ['\\', '\\']
  | short {c letter : Char} (h : c.toNat < 0x20) (hletter : shortEscape? letter = some c) :
      Glyph c ['\\', letter]
  | code {c a b d e : Char} {i j k l : Nat} (h : c.toNat < 0x20) (ha : hexDigit? a = some i)
      (hb : hexDigit? b = some j) (hd : hexDigit? d = some k) (he : hexDigit? e = some l)
      (hvalue : ((i * 16 + j) * 16 + k) * 16 + l = c.toNat) : Glyph c ['\\', 'u', a, b, d, e]

/-- The ways to write a text inside quotes. -/
inductive Spelled : List Char → List Char → Prop
  | nil : Spelled [] []
  | cons {c : Char} {glyph text body : List Char} (h : Glyph c glyph) (hs : Spelled text body) :
      Spelled (c :: text) (glyph ++ body)

theorem glyph_escapeChar (c : Char) : Glyph c (escapeChar c) := by
  unfold escapeChar
  split
  · exact ‹c = _› ▸ .quote
  split
  · exact ‹c = _› ▸ .back
  split
  · exact .short (by subst_vars; decide) (by subst_vars; rfl)
  split
  · exact .short (by subst_vars; decide) (by subst_vars; rfl)
  split
  · exact .short (by subst_vars; decide) (by subst_vars; rfl)
  split
  · exact .short (by subst_vars; decide) (by subst_vars; rfl)
  split
  · exact .short (by subst_vars; decide) (by subst_vars; rfl)
  split
  · rename_i h
    refine .code h (by decide : hexDigit? '0' = some 0) (by decide : hexDigit? '0' = some 0)
      (hexDigit?_hexDigit _ (by omega)) (hexDigit?_hexDigit _ (by omega)) ?_
    omega
  · exact .plain c ‹_› ‹_› (by omega)

theorem spelled_escape (text : List Char) : Spelled text (text.flatMap escapeChar) := by
  induction text with
  | nil => exact .nil
  | cons c text ih => exact .cons (glyph_escapeChar c) ih

/-! ## Runs without complaint -/

/-- The machine goes through these characters without complaint and completes this text. -/
inductive Passes : Phase → List Char → List Char → Phase → Prop
  | nil (p : Phase) : Passes p [] [] p
  | cons {p q r : Phase} {c : Char} {cs text more : List Char} (h : p.step c = .read q text)
      (hs : Passes q cs more r) : Passes p (c :: cs) (text ++ more) r

section Run

variable {p q r : Phase} {cs ds text more : List Char}

theorem Passes.silent {c : Char} (h : p.step c = .read q []) (hs : Passes q cs more r) :
    Passes p (c :: cs) more r :=
  .cons h hs

theorem Passes.last {c : Char} (h : p.step c = .read q text) : Passes p [c] text q := by
  rw [← List.append_nil text]
  exact .cons h (.nil q)

theorem Passes.append (h : Passes p cs text q) (h' : Passes q ds more r) :
    Passes p (cs ++ ds) (text ++ more) r := by
  induction h with
  | nil p => exact h'
  | cons hstep _ ih =>
    rw [List.append_assoc]
    exact .cons hstep (ih h')

theorem Passes.measureQuoted (h : Passes p cs text q) (complaint : Option String) (count : Nat)
    (rest : List Char) : StringLiteral.measureQuoted p complaint count (cs ++ rest) =
      StringLiteral.measureQuoted q complaint (count + cs.length) rest := by
  induction h generalizing count with
  | nil p => rfl
  | cons hstep _ ih =>
    rw [List.cons_append, StringLiteral.measureQuoted, hstep]
    dsimp only
    rw [ih, List.length_cons, Nat.add_assoc, Nat.add_comm 1]

theorem Passes.quotedText (h : Passes p cs text q) (rest : List Char) :
    StringLiteral.quotedText p (cs ++ rest) = text ++ StringLiteral.quotedText q rest := by
  induction h with
  | nil p => rfl
  | cons hstep _ ih =>
    rw [List.cons_append, StringLiteral.quotedText, hstep]
    dsimp only
    rw [ih, List.append_assoc]

end Run

/-- Where a character may begin, a line end aside. -/
def Phase.IsFree (p : Phase) : Prop := p = .opening ∨ p = .body

theorem Phase.IsFree.step_back {p : Phase} (hp : p.IsFree) : p.step '\\' = .read .escape [] := by
  rcases hp with rfl | rfl <;> rfl

theorem Phase.IsFree.step_quote {p : Phase} (hp : p.IsFree) : p.step '"' = .close := by
  rcases hp with rfl | rfl <;> rfl

theorem Phase.IsFree.step_plain {p : Phase} (hp : p.IsFree) {c : Char} (hquote : c ≠ '"')
    (hback : c ≠ '\\') (h : 0x20 ≤ c.toNat) : p.step c = .read .body [c] := by
  have hline : ¬ (c = '\n' ∨ c = '\r') := by
    rintro (rfl | rfl) <;> exact absurd h (by decide)
  rcases hp with rfl | rfl
  · simp [Phase.step, hquote, hback]
  · simp [Phase.step, hquote, hback, hline]

theorem closeHex_of_control {c : Char} (h : c.toNat < 0x20) :
    closeHex c.toNat none = .read .body [c] := by
  have hlead : isLeadSurrogate c.toNat = false := by
    simp only [isLeadSurrogate, Bool.and_eq_false_iff, decide_eq_false_iff_not]
    omega
  have htrail : isTrailSurrogate c.toNat = false := by
    simp only [isTrailSurrogate, Bool.and_eq_false_iff, decide_eq_false_iff_not]
    omega
  rw [closeHex, htrail, hlead, Char.ofNat_toNat]
  rfl

theorem Phase.step_digit {digit i : Nat} {c : Char} (h : hexDigit? c = some digit) {count : Nat}
    (hcount : count ≠ 3) : (Phase.hex count i none).step c =
      .read (.hex (count + 1) (i * 16 + digit) none) [] := by
  rw [Phase.step, h]
  exact if_neg hcount

theorem Glyph.passes {c : Char} {glyph : List Char} (h : Glyph c glyph) {p : Phase}
    (hp : p.IsFree) : Passes p glyph [c] .body := by
  cases h with
  | plain _ hquote hback h => exact .last (hp.step_plain hquote hback h)
  | quote => exact .silent hp.step_back (.last rfl)
  | back => exact .silent hp.step_back (.last rfl)
  | @short _ letter h hletter =>
    have hu : letter ≠ 'u' := by
      rintro rfl
      cases hletter
    refine .silent hp.step_back (.last ?_)
    rw [Phase.step, if_neg hu, hletter]
  | @code _ a b d e i j k l h ha hb hd he hvalue =>
    have hclose : (Phase.hex 3 ((i * 16 + j) * 16 + k) none).step e = .read .body [c] := by
      rw [Phase.step, he, ← closeHex_of_control h, ← hvalue]
      rfl
    -- Digits are put behind a number, and the first one behind zero.
    rw [← Nat.zero_add i, ← Nat.zero_mul 16] at hclose
    refine .silent hp.step_back (.silent (q := .hex 0 0 none) rfl ?_)
    refine .silent (Phase.step_digit ha (by decide)) ?_
    refine .silent (Phase.step_digit hb (by decide)) ?_
    refine .silent (Phase.step_digit hd (by decide)) ?_
    exact .last hclose

/-- A spelling is read as what it spells, and a character may begin behind it. -/
theorem Spelled.passes {text body : List Char} (h : Spelled text body) {p : Phase}
    (hp : p.IsFree) : ∃ q : Phase, q.IsFree ∧ Passes p body text q := by
  induction h generalizing p with
  | nil => exact ⟨p, hp, .nil p⟩
  | cons hglyph _ ih =>
    obtain ⟨q, hq, hs⟩ := ih (.inr rfl)
    exact ⟨q, hq, (hglyph.passes hp).append hs⟩

/-! ## Literals -/

section Literal

variable {text body : List Char}

theorem Glyph.head_ne {c d : Char} {glyph : List Char} (h : Glyph c (d :: glyph)) : d ≠ '"' := by
  cases h with
  | plain _ hquote => exact hquote
  | quote | back | short | code => decide

theorem Spelled.head_ne (h : Spelled text body) : body.head? ≠ some '"' := by
  cases h with
  | nil => simp
  | @cons c glyph _ _ hglyph _ =>
    cases glyph with
    | nil => cases hglyph
    | cons d glyph =>
      intro hhead
      exact hglyph.head_ne (Option.some.inj hhead)

/-- Only a block literal starts with two quotes behind its first one. -/
theorem measure_of_single {cs : List Char} (hne : cs ≠ [])
    (hsingle : ∀ rest, cs ≠ '"' :: '"' :: rest) :
    StringLiteral.measure cs = measureQuoted .opening none 0 cs := by
  unfold StringLiteral.measure
  split
  · exact absurd rfl hne
  · exact absurd rfl (hsingle _)
  · rfl

theorem value_of_single {cs : List Char} (hsingle : ∀ rest, cs ≠ '"' :: '"' :: rest) :
    StringLiteral.value ('"' :: cs) = quotedText .opening cs := by
  unfold StringLiteral.value
  split
  · rename_i heq
    cases heq
    exact absurd rfl (hsingle _)
  · rename_i heq
    cases heq
    rfl
  · rename_i heq
    cases heq

/-- The quote behind a spelling is the first one. -/
theorem Spelled.single (h : Spelled text body) {rest : List Char} (hrest : rest.head? ≠ some '"')
    (more : List Char) : body ++ '"' :: rest ≠ '"' :: '"' :: more := by
  intro heq
  cases body with
  | nil =>
    obtain ⟨-, rfl⟩ := List.cons.inj heq
    exact hrest rfl
  | cons d body =>
    obtain ⟨rfl, -⟩ := List.cons.inj heq
    exact h.head_ne rfl

/-- A spelling between quotes is measured as it stands, when no quote follows. -/
theorem Spelled.measure (h : Spelled text body) {rest : List Char}
    (hrest : rest.head? ≠ some '"') :
    StringLiteral.measure (body ++ '"' :: rest) = (.ok (), body.length + 1) := by
  obtain ⟨q, hq, hpasses⟩ := h.passes (.inl rfl)
  rw [measure_of_single (by simp) (h.single hrest), hpasses.measureQuoted, measureQuoted,
    hq.step_quote, Nat.zero_add]
  rfl

/-- A spelling between quotes denotes what it spells. -/
theorem Spelled.value (h : Spelled text body) :
    StringLiteral.value ('"' :: (body ++ ['"'])) = text := by
  obtain ⟨q, hq, hpasses⟩ := h.passes (.inl rfl)
  rw [value_of_single (h.single (by simp)), hpasses.quotedText, quotedText, hq.step_quote,
    List.append_nil]

end Literal

end SchemaCatalog.Sdl.StringLiteral
