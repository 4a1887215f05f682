import SchemaCatalog.Classification
import SchemaCatalog.Proofs.Sdl.CleanRun

/-!
# SchemaCatalog.Proofs.Sdl.TypeReading

What a clean run of the rule for types reads.

`Cursor.Behind before cs c`: between the lexemes `before` and the cursor stand tokens that,
ignored ones aside, spell `cs`, and the cursor knows where the last of them ends. The rule for
types leaves the cursor behind the notation of the type that its tree denotes
(`Ensures.typeAt`, by induction on the levels that are left), and so the source text that is kept
with a type is its notation once the ignored tokens are dropped (`Ensures.typeSource`).
-/

namespace SchemaCatalog

/-- The tree of a type with all its parts. -/
def TypeRef.node : TypeRef → Sdl.TypeNode
  | named name => .named name
  | list item => .list item.node
  | nonNull inner => .nonNull inner.node

/-- No non-null wrapper stands directly around another. -/
def TypeRef.NoDoubleNonNull : TypeRef → Prop
  | named _ => True
  | list item => item.NoDoubleNonNull
  | nonNull inner => inner.isNonNull = false ∧ inner.NoDoubleNonNull

theorem TypeRef.ofNode_node (part : String) (t : TypeRef) : TypeRef.ofNode part t.node = .ok t := by
  induction t generalizing part with
  | named name => rfl
  | list item ih => rw [node, ofNode, ih]; rfl
  | nonNull inner ih => rw [node, ofNode, ih]; rfl

namespace Sdl

open Parse

theorem Kind.isIgnored_punctuator {d : Char} (h : d ≠ ',') :
    (Kind.punctuator d).isIgnored = false := by
  simp [Kind.isIgnored, h]

/-! ## Standing behind tokens -/

/-- Between `before` and the cursor stand tokens that spell `cs`, ignored ones aside. -/
def Cursor.Behind (before : List Lexeme) (cs : List Char) (c : Cursor) : Prop :=
  ∃ used last gap, before = used ++ .token last :: (gap ++ c.rest) ∧ Ignored gap ∧
    (∀ l ∈ used, l.IsPlain) ∧ last.kind.isPlain = true ∧ last.kind.isIgnored = false ∧
    c.reach = last.stop ∧ used.flatMap Lexeme.significant ++ last.text.toList = cs

theorem Parse.Ignored.append {g₁ g₂ : List Lexeme} (h₁ : Ignored g₁) (h₂ : Ignored g₂) :
    Ignored (g₁ ++ g₂) := by
  intro l hl
  rcases List.mem_append.1 hl with hl | hl
  · exact h₁ l hl
  · exact h₂ l hl

theorem Parse.Ignored.plain {gap : List Lexeme} (h : Ignored gap) : ∀ l ∈ gap, l.IsPlain := by
  intro l hl
  obtain ⟨⟨kind, text, offset⟩, rfl, ht⟩ := h l hl
  cases kind with
  | punctuator | blank | comment => rfl
  | spread | name | int | float | string | endOfInput => cases ht

theorem Parse.Ignored.significant {gap : List Lexeme} (h : Ignored gap) :
    gap.flatMap Lexeme.significant = [] := by
  rw [List.flatMap_eq_nil_iff]
  intro l hl
  obtain ⟨t, rfl, ht⟩ := h l hl
  simp [Lexeme.significant, ht]

namespace Cursor

variable {before : List Lexeme} {cs : List Char} {c c' : Cursor} {t : Token}

theorem behind_token (hbefore : before = .token t :: c.rest) (hplain : t.kind.isPlain = true)
    (hcounts : t.kind.isIgnored = false) (hreach : c.reach = t.stop) :
    c.Behind before t.text.toList :=
  ⟨[], t, [], hbefore, by simp [Ignored], by simp, hplain, hcounts, hreach, rfl⟩

theorem Behind.skip {gap : List Lexeme} (h : c.Behind before cs) (hgap : c.rest = gap ++ c'.rest)
    (hign : Ignored gap) (hreach : c'.reach = c.reach) : c'.Behind before cs := by
  obtain ⟨used, last, gap', hbefore, hign', hplain, hlast, hcounts, hr, hcs⟩ := h
  refine ⟨used, last, gap' ++ gap, ?_, hign'.append hign, hplain, hlast, hcounts, ?_, hcs⟩
  · rw [hbefore, hgap, List.append_assoc]
  · rw [hreach, hr]

/-- One more token behind those that were read. -/
theorem Behind.push (h : c.Behind before cs) (hrest : c.rest = .token t :: c'.rest)
    (hplain : t.kind.isPlain = true) (hcounts : t.kind.isIgnored = false)
    (hreach : c'.reach = t.stop) : c'.Behind before (cs ++ t.text.toList) := by
  obtain ⟨used, last, gap, hbefore, hign, hused, hlast, hlastCounts, _, hcs⟩ := h
  refine ⟨used ++ .token last :: gap, t, [], ?_, by simp [Ignored], ?_, hplain, hcounts, hreach, ?_⟩
  · rw [hbefore, hrest]
    simp
  · intro l hl
    rcases List.mem_append.1 hl with hl | hl
    · exact hused l hl
    · rcases List.mem_cons.1 hl with rfl | hl
      · exact hlast
      · exact hign.plain l hl
  · rw [List.flatMap_append, List.flatMap_cons, hign.significant, ← hcs]
    simp [Lexeme.significant, hlastCounts]

/-- One more token before those that were read. -/
theorem Behind.cons {gap before' : List Lexeme} (h : c.Behind before' cs)
    (hbefore : before = .token t :: (gap ++ before')) (hign : Ignored gap)
    (hplain : t.kind.isPlain = true) (hcounts : t.kind.isIgnored = false) :
    c.Behind before (t.text.toList ++ cs) := by
  obtain ⟨used, last, gap', rfl, hign', hused, hlast, hlastCounts, hreach, hcs⟩ := h
  refine ⟨.token t :: (gap ++ used), last, gap', ?_, hign', ?_, hlast, hlastCounts, hreach, ?_⟩
  · rw [hbefore]
    simp
  · intro l hl
    rcases List.mem_cons.1 hl with rfl | hl
    · exact hplain
    · rcases List.mem_append.1 hl with hl | hl
      · exact hign.plain l hl
      · exact hused l hl
  · rw [List.flatMap_cons, List.flatMap_append, hign.significant, ← hcs]
    simp [Lexeme.significant, hcounts]

end Cursor

/-! ## The rule for types -/

section TypeRule

variable {text : String} {before : List Lexeme}

/-- A type with all its parts has been read from `before`, or the token that stands in its place
has been taken. -/
def TypeRead (text : String) (before : List Lexeme) (r : TypeNode × Option Token) (c : Cursor) :
    Prop :=
  (r.2.isSome = true ∧ c.silenced = false) ∨
    (r.2 = none ∧ c.Live text ∧ ∃ t : TypeRef, r.1 = t.node ∧ isName t.namedType.toList = true ∧
      t.NoDoubleNonNull ∧ c.Behind before t.chars)

theorem ensures_skip_behind {cs : List Char} :
    Ensures (fun c => c.Live text ∧ c.Behind before cs) skip fun _ c =>
      c.Live text ∧ c.Behind before cs := by
  rintro c ⟨hc, hb⟩ hclean
  obtain ⟨gap, hgap, hign, hreach, hlive, _⟩ := skip_clean hc hclean
  exact ⟨hlive, hb.skip hgap hign hreach⟩

theorem ensures_pop_behind (cs : List Char) (p : Token → Bool)
    (hp : ∀ t, p t = true → t.kind.isPlain = true ∧ t.kind.isIgnored = false ∧
      t.kind ≠ .endOfInput) :
    Ensures (fun c => (c.Live text ∧ c.Behind before cs) ∧ c.Ahead (p · = true)) pop fun t c =>
      c.Live text ∧ ∃ token : Token, t = some token ∧ p token = true ∧ token.Regular ∧
        c.Behind before (cs ++ token.text.toList) := by
  rintro c ⟨⟨hc, hb⟩, t, rest, hrest, ht⟩ hclean
  rw [pop_of_token hrest]
  obtain ⟨hplain, hcounts, hend⟩ := hp t ht
  have hreg := hc.regular (by rw [hrest]; exact List.mem_cons_self)
  refine ⟨live_advance hc hrest hend, t, rfl, ht, hreg, ?_⟩
  refine hb.push ?_ hplain hcounts ?_
  · rw [rest_advance hrest, hrest]
  · rw [advance_of_token hrest hcounts]

/-- Behind the notation of a type without an exclamation mark at its end. -/
theorem ensures_typeEnd {t : TypeRef} (hname : isName t.namedType.toList = true)
    (hdouble : t.NoDoubleNonNull) (hnull : t.isNonNull = false) :
    Ensures (fun c => c.Live text ∧ c.Behind before t.chars) (typeEnd t.node) fun node c =>
      TypeRead text before (node, none) c := by
  refine ensures_skip_behind.bind fun _ => ?_
  refine Ensures.bind (Ensures.ask (fun _ hc => hc.1) (·.kind = .punctuator '!')) fun b => ?_
  refine Ensures.ite (fun hb => ?_) fun _ => ?_
  · refine Ensures.bind ((ensures_pop_behind t.chars (·.kind = .punctuator '!') ?_).mono
      (fun c hc => ⟨hc.1, hc.2.1 hb⟩) fun _ _ h => h) fun token => ?_
    · intro token htoken
      rw [of_decide_eq_true htoken]
      exact ⟨rfl, rfl, by decide⟩
    rintro c ⟨hc, token, rfl, hk, hreg, hbehind⟩
    have hbang := hreg.punctuator '!' (of_decide_eq_true hk)
    rw [hbang] at hbehind
    have hend : Ensures (fun c => c.Live text ∧ c.Behind before t.nonNull.chars)
        (do Parse.skip; return t.nonNull.node) fun node c => TypeRead text before (node, none) c :=
      Ensures.bind ensures_skip_behind fun _ => Ensures.pure fun c hc =>
        .inr ⟨rfl, hc.1, t.nonNull, rfl, hname, ⟨hnull, hdouble⟩, hc.2⟩
    exact hend c ⟨hc, hbehind⟩
  · refine Ensures.bind (ensures_skip_behind.mono (fun c hc => hc.1) fun _ _ h => h) fun _ => ?_
    exact Ensures.pure fun c hc => .inr ⟨rfl, hc.1, t, rfl, hname, hdouble, hc.2⟩

/-- Taking a token that counts, and the ignored ones behind it. -/
theorem ensures_bump_ahead {t : Token} {rest : List Lexeme} (hcounts : t.kind.isIgnored = false)
    (hend : t.kind ≠ .endOfInput) :
    Ensures (fun c => c.Live text ∧ c.rest = .token t :: rest) bump fun _ c =>
      c.Live text ∧ c.reach = t.stop ∧ ∃ gap, rest = gap ++ c.rest ∧ Ignored gap := by
  rintro c ⟨hc, hrest⟩ hclean
  rw [bump_of_token hrest] at hclean ⊢
  obtain ⟨gap, hgap, hign, hreach, hlive, _⟩ := skip_clean (live_advance hc hrest hend) hclean
  rw [rest_advance hrest] at hgap
  have hstop : c.advance.reach = t.stop := by rw [advance_of_token hrest hcounts]
  exact ⟨hlive, hreach.trans hstop, gap, hgap, hign⟩

theorem ensures_pop_ahead {t : Token} {rest : List Lexeme} (hplain : t.kind.isPlain = true)
    (hcounts : t.kind.isIgnored = false) (hend : t.kind ≠ .endOfInput) :
    Ensures (fun c => c.Live text ∧ c.rest = .token t :: rest) pop fun _ c =>
      c.Live text ∧ c.Behind (.token t :: rest) t.text.toList := by
  rintro c ⟨hc, hrest⟩ _
  rw [pop_of_token hrest]
  refine ⟨live_advance hc hrest hend, Cursor.behind_token ?_ hplain hcounts ?_⟩
  · rw [rest_advance hrest]
  · rw [advance_of_token hrest hcounts]

/-- The closing bracket behind an item. -/
theorem ensures_expect_behind {cs : List Char} {d : Char} (hcomma : d ≠ ',') (label : String) :
    Ensures (fun c => c.Live text ∧ c.Behind before cs) (expect (.punctuator d) label) fun _ c =>
      c.Live text ∧ c.Behind before (cs ++ [d]) := by
  refine Ensures.bind (Ensures.peek fun _ hc => hc.1) fun t => ?_
  rintro c ⟨⟨hc, hb⟩, token, rfl, token', rest, hrest, rfl⟩ hclean
  dsimp only at hclean ⊢
  split at hclean
  · rename_i hk
    rw [if_pos hk]
    have hcounts : token'.kind.isIgnored = false := by rw [hk, Kind.isIgnored_punctuator hcomma]
    obtain ⟨hlive, hreach, gap, hgap, hign⟩ := ensures_bump_ahead hcounts (by rw [hk]; simp) c
      ⟨hc, hrest⟩ hclean
    have hreg := hc.regular (by rw [hrest]; exact List.mem_cons_self)
    refine ⟨hlive, ?_⟩
    rw [← hreg.punctuator d hk]
    have hpush : ({ c with rest := rest, reach := token'.stop } : Cursor).Behind before
        (cs ++ token'.text.toList) :=
      hb.push hrest (by rw [hk]; rfl) hcounts rfl
    exact hpush.skip hgap hign hreach
  · split at hclean
    · exact (rejects_report _ _ c hc hclean).elim
    · exact (rejects_report _ _ c hc hclean).elim

/-- A list, when the rule for its items is right. -/
theorem ensures_listType {t : Token} {gap : List Lexeme}
    {item : Parse (TypeNode × Option Token)} (hk : t.kind = .punctuator '[') (hreg : t.Regular)
    (hign : Ignored gap)
    (hitem : Ensures (fun c => c.Live text ∧ c.rest = before) item (TypeRead text before)) :
    Ensures (fun c => c.Live text ∧ c.rest = before) (listType item)
      (TypeRead text (.token t :: (gap ++ before))) := by
  refine Ensures.bind hitem fun r => ?_
  obtain ⟨node, culprit⟩ := r
  refine Ensures.bind (Ensures.blame "expected item type" culprit) fun _ => ?_
  rintro c ⟨hc, u, rfl, hname, hdouble, hb⟩
  have hb' := hb.cons (rfl : Lexeme.token t :: (gap ++ before) = _) hign (by rw [hk]; rfl)
    (by rw [hk]; rfl)
  rw [hreg.punctuator '[' hk] at hb'
  have hrest : Ensures
      (fun c => c.Live text ∧ c.Behind (.token t :: (gap ++ before)) (['['] ++ u.chars))
      (do expect (.punctuator ']') "R_BRACK"; return (← typeEnd (.list u.node), none))
      (TypeRead text (.token t :: (gap ++ before))) := by
    refine Ensures.bind (ensures_expect_behind (by decide) "R_BRACK") fun _ => ?_
    refine (ensures_typeEnd (t := u.list) hname hdouble rfl).bind fun node => ?_
    exact Ensures.pure fun c hc => hc
  exact hrest c ⟨hc, hb'⟩

/-- One level of the rule, when the rule for the items is right. -/
theorem ensures_typeLevel {item? : Option (Parse (TypeNode × Option Token))}
    (hitem : ∀ item, item? = some item → ∀ before,
      Ensures (fun c => c.Live text ∧ c.rest = before) item (TypeRead text before)) :
    Ensures (fun c => c.Live text ∧ c.rest = before) (typeLevel item?) (TypeRead text before) := by
  refine Ensures.bind (Ensures.peek fun _ hc => hc.1) fun t => ?_
  rintro c ⟨⟨hc, rfl⟩, token, rfl, t, rest, hrest, rfl⟩
  have hreg := hc.regular (by rw [hrest]; exact List.mem_cons_self)
  rw [hrest]
  dsimp only
  split
  · rename_i hk
    have hbump : Ensures (fun c => c.Live text ∧ c.rest = .token t :: rest) bump fun _ c =>
        c.Live text ∧ c.reach = t.stop ∧ ∃ gap, rest = gap ++ c.rest ∧ Ignored gap :=
      ensures_bump_ahead (by rw [hk]; rfl) (by rw [hk]; simp)
    cases item? with
    | none =>
      have hdeep : Ensures (fun c => c.Live text ∧ c.rest = .token t :: rest)
          (do bump; tooDeep; return (TypeNode.missing, none)) (TypeRead text (.token t :: rest)) :=
        hbump.bind fun _ => (rejects_tooDeep.bind.ensures).mono (fun c hc => hc.1) fun _ _ h => h
      exact hdeep c ⟨hc, hrest⟩
    | some item =>
      have hlist : Ensures (fun c => c.Live text ∧ c.rest = .token t :: rest)
          (do bump; listType item) (TypeRead text (.token t :: rest)) := by
        refine hbump.bind fun _ => ?_
        rintro c ⟨hc, _, gap, rfl, hign⟩
        exact ensures_listType hk hreg hign (hitem item rfl c.rest) c ⟨hc, rfl⟩
      exact hlist c ⟨hc, hrest⟩
  · rename_i hk
    have hnamed : Ensures (fun c => c.Live text ∧ c.rest = .token t :: rest)
        (do let _ ← pop; return (← typeEnd (.named t.text), none))
        (TypeRead text (.token t :: rest)) := by
      refine (ensures_pop_ahead (by rw [hk]; rfl) (by rw [hk]; rfl) (by rw [hk]; simp)).bind
        fun _ => ?_
      refine (ensures_typeEnd (t := .named t.text) (hreg.name hk) trivial rfl).bind fun node => ?_
      exact Ensures.pure fun c hc => hc
    exact hnamed c ⟨hc, hrest⟩
  · intro _
    refine .inl ?_
    change (pop.run c).1.isSome = true ∧ (pop.run c).2.silenced = false
    rw [pop_of_token hrest]
    exact ⟨rfl, by simpa [Cursor.advance, hrest] using hc.heard⟩

theorem ensures_typeAt (levels : Nat) : ∀ before,
    Ensures (fun c => c.Live text ∧ c.rest = before) (typeAt levels) (TypeRead text before) := by
  induction levels with
  | zero => exact fun before => ensures_typeLevel fun _ h => by cases h
  | succ levels ih =>
    intro before
    refine ensures_typeLevel fun item h => ?_
    cases h
    exact ih

theorem ensures_type (before : List Lexeme) :
    Ensures (fun c => c.Live text ∧ c.rest = before) type fun node c =>
      c.Live text ∧ ∃ t : TypeRef, node = t.node ∧ isName t.namedType.toList = true ∧
        t.NoDoubleNonNull ∧ c.Behind before t.chars := by
  refine Ensures.bind (ensures_typeAt maxDepth before) fun r => ?_
  obtain ⟨node, culprit⟩ := r
  exact Ensures.bind (Ensures.blame "expected a type" culprit) fun _ => Ensures.pure fun c hc => hc

end TypeRule

/-! ## The source text of a type -/

/-- The lexemes between `before` and a cursor that stands behind `cs` are a stretch of the text
that is `cs` without its ignored tokens. -/
theorem source_of_behind {offset : Nat} {ds cs : List Char} {c : Cursor}
    (h : c.Behind (Lexeme.scanFrom offset ds) cs) :
    let source := String.join
      (((Lexeme.scanFrom offset ds).takeWhile (·.offset < c.reach)).map (·.text))
    source.toList <+: ds ∧ withoutIgnored source = String.ofList cs := by
  obtain ⟨used, last, gap, hscan, _, hused, hlast, hcounts, hreach, hcs⟩ := h
  have hend : last.kind ≠ .endOfInput := by
    intro he
    rw [he] at hlast
    cases hlast
  have hplain : ∀ l ∈ used ++ [.token last], l.IsPlain := by
    intro l hl
    rcases List.mem_append.1 hl with hl | hl
    · exact hused l hl
    · rw [List.mem_singleton.1 hl]
      exact hlast
  have hsplit : Lexeme.scanFrom offset ds = (used ++ [.token last]) ++ (gap ++ c.rest) := by
    rw [hscan]
    simp
  have htake : (Lexeme.scanFrom offset ds).takeWhile (·.offset < c.reach) =
      used ++ [.token last] := by
    rw [hreach, hscan]
    exact Lexeme.takeWhile_offset_lt hend hscan
  have hsource : (String.join ((used ++ [Lexeme.token last]).map (·.text))).toList =
      (used ++ [Lexeme.token last]).flatMap (·.text.toList) := by
    rw [String.toList_join, List.flatMap_map]
  dsimp only
  rw [htake, withoutIgnored, Lexeme.scan, hsource, Lexeme.significant_scanFrom hplain hsplit]
  refine ⟨Lexeme.prefix_of_scanFrom hsplit, ?_⟩
  rw [List.flatMap_append, List.flatMap_singleton, ← hcs]
  simp [Lexeme.significant, hcounts]

/-- A type with all its parts, and the stretch of the text that is its notation. -/
structure TypeWritten (text : String) (node : TypeNode) (source : String) (t : TypeRef) : Prop where
  node : node = t.node
  name : isName t.namedType.toList = true
  noDouble : t.NoDoubleNonNull
  stretch : source.toList <:+: text.toList
  spelling : t.render = withoutIgnored source

theorem ensures_source (text : String) :
    Ensures (Cursor.Live text) (withSource type) fun r c =>
      c.Live text ∧ ∃ t, TypeWritten text r.1 r.2 t := by
  refine Ensures.bind (Ensures.peek fun _ hc => hc) fun _ => ?_
  refine Ensures.bind (R := fun before c => c.Live text ∧ c.rest = before)
    (Ensures.inspect fun c hc => ⟨hc.1, rfl⟩) fun before => ?_
  rintro c ⟨hc, rfl⟩
  obtain ⟨offset, ds, hscan, hds⟩ := hc.exists_scanFrom
  have hread : Ensures (fun c' => c'.Live text ∧ c'.rest = c.rest)
      (do
        let node ← type
        let reach ← inspect (·.reach)
        return (node, String.join ((c.rest.takeWhile (·.offset < reach)).map (·.text))))
      (fun r c => c.Live text ∧ ∃ t, TypeWritten text r.1 r.2 t) := by
    refine Ensures.bind (ensures_type c.rest) fun node => ?_
    refine Ensures.bind (R := fun reach c' => c'.reach = reach ∧ c'.Live text ∧
      ∃ t : TypeRef, node = t.node ∧ isName t.namedType.toList = true ∧ t.NoDoubleNonNull ∧
        c'.Behind c.rest t.chars) (Ensures.inspect fun c' hc' => ⟨rfl, hc'⟩) fun reach => ?_
    refine Ensures.pure ?_
    rintro c' ⟨rfl, hc', t, rfl, hname, hdouble, hb⟩
    rw [hscan] at hb ⊢
    obtain ⟨hstretch, hspelling⟩ := source_of_behind hb
    exact ⟨hc', t, rfl, hname, hdouble, hstretch.isInfix.trans hds.isInfix, hspelling.symm⟩
  exact hread c ⟨hc, rfl⟩

end Sdl

end SchemaCatalog
