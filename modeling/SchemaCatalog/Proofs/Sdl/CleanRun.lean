import SchemaCatalog.Proofs.Sdl.Scanning

/-!
# SchemaCatalog.Proofs.Sdl.CleanRun

Reasoning about runs without complaints.

`Parse.Ensures P p Q`: a run of `p` that starts where `P` holds and ends without complaints ends
where `Q` holds. Since complaints are never taken back, such a run is clean all the way, so the
rule for two steps one behind the other (`Ensures.bind`) needs no word about complaints.

Two conditions on cursors carry through the grammar. A cursor is `Live` when a complaint would be
heard and the end of the text has not been taken, so that there is always a token to complain
about: this is why a clean run cannot pass over a missing part. It is `Inside` when moreover the
next token is not the end, so that it may be taken.
-/

namespace SchemaCatalog.Sdl

namespace Cursor

/-- A place in a text where complaints are heard and something is left to read. -/
structure Live (text : String) (c : Cursor) : Prop where
  heard : c.silenced = false
  suffix : c.rest <:+ Lexeme.scan text
  more : c.rest ≠ []

/-- The next lexeme is a token with a property. -/
def Ahead (p : Token → Prop) (c : Cursor) : Prop :=
  ∃ t rest, c.rest = .token t :: rest ∧ p t

/-- A token stands behind the next one, with nothing between them that counts. -/
def Second (t : Token) (c : Cursor) : Prop :=
  ∃ head gap rest, c.rest = .token head :: (gap ++ .token t :: rest) ∧
    ∀ u, .token u ∈ gap → u.kind.isIgnored = true

/-- A place before the end of a text. -/
structure Inside (text : String) (c : Cursor) : Prop where
  live : c.Live text
  ahead : c.Ahead (·.kind ≠ .endOfInput)

variable {text : String} {c : Cursor}

theorem Live.exists_scanFrom (h : c.Live text) :
    ∃ offset cs, c.rest = Lexeme.scanFrom offset cs ∧ cs <:+ text.toList :=
  Lexeme.exists_scanFrom_of_suffix h.suffix h.more

theorem Live.regular (h : c.Live text) {t : Token} (ht : .token t ∈ c.rest) : t.Regular :=
  Lexeme.regular_of_mem (h.suffix.subset ht)

theorem live_start (text : String) : (start (Lexeme.scan text)).Live text :=
  ⟨rfl, List.suffix_refl _, Lexeme.scanFrom_ne_nil _ _⟩

theorem Ahead.mono {p q : Token → Prop} (h : c.Ahead p) (hpq : ∀ t, p t → q t) : c.Ahead q := by
  obtain ⟨t, rest, hrest, ht⟩ := h
  exact ⟨t, rest, hrest, hpq t ht⟩

/-- Behind a lexeme that is not the end there is another one. -/
theorem Live.tail_ne_nil (h : c.Live text) {l : Lexeme} {rest : List Lexeme}
    (hrest : c.rest = l :: rest) (hl : ∀ t, l = .token t → t.kind ≠ .endOfInput) : rest ≠ [] := by
  obtain ⟨offset, cs, hscan, _⟩ := h.exists_scanFrom
  rw [hrest] at hscan
  rcases Lexeme.scanFrom_eq_cons hscan.symm with ⟨_, rfl, _⟩ | ⟨_, _, _, _, _, _, _, _, _, rfl⟩
  · exact absurd rfl (hl _ rfl)
  · exact Lexeme.scanFrom_ne_nil _ _

end Cursor

namespace Parse

variable {α β : Type} {P P' : Cursor → Prop} {text : String}

/-- What holds behind every run without complaints. -/
def Ensures (P : Cursor → Prop) (p : Parse α) (Q : α → Cursor → Prop) : Prop :=
  ∀ c, P c → (p.run c).2.errors = [] → Q (p.run c).1 (p.run c).2

/-- A run that ends without complaints starts without them. -/
theorem clean_before (p : Parse α) {c : Cursor} (h : (p.run c).2.errors = []) : c.errors = [] :=
  List.suffix_nil.1 (h ▸ p.grows c)

/-! ## Rules for the ways to combine steps -/

namespace Ensures

theorem mono {p : Parse α} {Q Q' : α → Cursor → Prop} (h : Ensures P p Q)
    (hP : ∀ c, P' c → P c) (hQ : ∀ a c, Q a c → Q' a c) : Ensures P' p Q' :=
  fun c hc hclean => hQ _ _ (h c (hP c hc) hclean)

theorem weaken {p : Parse α} {Q Q' : α → Cursor → Prop} (h : Ensures P p Q)
    (hQ : ∀ a c, Q a c → Q' a c) : Ensures P p Q' :=
  h.mono (fun _ hc => hc) hQ

theorem pure {a : α} {Q : α → Cursor → Prop} (h : ∀ c, P c → Q a c) :
    Ensures P (Pure.pure a) Q :=
  fun c hc _ => h c hc

theorem bind {p : Parse α} {f : α → Parse β} {R : α → Cursor → Prop} {Q : β → Cursor → Prop}
    (hp : Ensures P p R) (hf : ∀ a, Ensures (R a) (f a) Q) : Ensures P (p >>= f) Q := by
  intro c hc hclean
  exact hf _ _ (hp c hc (clean_before (f (p.run c).1) hclean)) hclean

/-- What is known of the first result stays known. -/
theorem andThen {p : Parse α} {f : α → Parse β} {R : Cursor → Prop} {G : α → Prop}
    {Q : β → Cursor → Prop} (hp : Ensures P p fun a c => R c ∧ G a)
    (hf : ∀ a, G a → Ensures R (f a) Q) : Ensures P (p >>= f) Q :=
  hp.bind fun a c hc hclean => hf a hc.2 c hc.1 hclean

theorem map {p : Parse α} {f : α → β} {Q : β → Cursor → Prop}
    (hp : Ensures P p fun a c => Q (f a) c) : Ensures P (f <$> p) Q :=
  hp

theorem discard {p : Parse α} {R : Cursor → Prop} (hp : Ensures P p fun _ => R) :
    Ensures P (Functor.discard p) fun _ => R :=
  hp

theorem inspect {question : Cursor → α} {Q : α → Cursor → Prop} (h : ∀ c, P c → Q (question c) c) :
    Ensures P (Parse.inspect question) Q :=
  fun c hc _ => h c hc

theorem ite {b : Prop} [Decidable b] {p q : Parse α} {Q : α → Cursor → Prop}
    (hp : b → Ensures P p Q) (hq : ¬ b → Ensures P q Q) : Ensures P (if b then p else q) Q := by
  split
  · exact hp ‹_›
  · exact hq ‹_›

end Ensures

/-! ## Looking at the next token -/

section Look

variable {c : Cursor} {t : Token} {rest : List Lexeme}

theorem settle_of_token (h : c.rest = .token t :: rest) : c.settle = c := by
  obtain ⟨ls, errors, silenced, reach, bound⟩ := c
  subst h
  rfl

theorem peek_of_token (h : c.rest = .token t :: rest) : peek.run c = (some t, c) := by
  change (c.settle.head?, c.settle) = (some t, c)
  rw [settle_of_token h, Cursor.head?, h]

theorem length_settleList_le (ls : List Lexeme) (errors : List SyntaxError) :
    errors.length ≤ (Cursor.settleList ls errors).2.length :=
  (Cursor.settleList_suffix ls errors).length_le

/-- In a clean run the next lexeme is a token, and looking at it changes nothing. -/
theorem peek_clean (h : c.Live text) (hclean : c.settle.errors = []) :
    ∃ t rest, c.rest = .token t :: rest ∧ c.settle = c := by
  cases hrest : c.rest with
  | nil => exact absurd hrest h.more
  | cons l rest =>
    cases l with
    | token t => exact ⟨t, rest, rfl, settle_of_token hrest⟩
    | invalid error slice =>
      have hle := length_settleList_le rest (error :: c.errors)
      have : (Cursor.settleList rest (error :: c.errors)).2 = [] := by
        simpa [Cursor.settle, hrest, Cursor.settleList] using hclean
      rw [this] at hle
      simp at hle

end Look

theorem Ensures.peek (hP : ∀ c, P c → c.Live text) :
    Ensures P peek fun t c => P c ∧ ∃ token, t = some token ∧ c.Ahead (· = token) := by
  intro c hc hclean
  obtain ⟨t, rest, hrest, hsettle⟩ := peek_clean (hP c hc) hclean
  rw [peek_of_token hrest]
  exact ⟨hc, t, rfl, t, rest, hrest, rfl⟩

/-- In a clean run there is a next token. -/
theorem Ensures.peekThen {f : Option Token → Parse α} {Q : α → Cursor → Prop}
    (h : ∀ token : Token, token.Regular →
      Ensures (fun c => c.Live text ∧ c.Ahead (· = token)) (f (some token)) Q) :
    Ensures (Cursor.Live text) (Parse.peek >>= f) Q := by
  refine (Ensures.peek fun _ hc => hc).bind fun t => ?_
  rintro c ⟨hc, token, rfl, ha⟩
  obtain ⟨_, rest, hrest, rfl⟩ := ha
  exact h _ (hc.regular (by rw [hrest]; exact List.mem_cons_self)) c ⟨hc, _, rest, hrest, rfl⟩

theorem Ensures.ofLive {p : Parse α} {R : Cursor → Prop} {Q : α → Cursor → Prop}
    (h : Ensures (Cursor.Live text) p Q) : Ensures (fun c => c.Live text ∧ R c) p Q :=
  h.mono (fun _ hc => hc.1) fun _ _ h => h

theorem Ensures.inside {p : Parse α} {Q : α → Cursor → Prop}
    (h : Ensures (Cursor.Live text) p Q) : Ensures (Cursor.Inside text) p Q :=
  h.mono (fun _ hc => hc.live) fun _ _ h => h

theorem Ensures.peekInside {f : Option Token → Parse α} {Q : α → Cursor → Prop}
    (h : ∀ token, Ensures (Cursor.Inside text) (f (some token)) Q) :
    Ensures (Cursor.Inside text) (Parse.peek >>= f) Q := by
  refine (Ensures.peek fun _ hc => hc.live).bind fun t => ?_
  rintro c ⟨hc, token, rfl, _⟩
  exact h token c hc

theorem Ensures.ofInside {p : Parse α} {token : Token} {Q : α → Cursor → Prop}
    (h : Ensures (Cursor.Inside text) p Q) (hk : token.kind ≠ .endOfInput) :
    Ensures (fun c => c.Live text ∧ c.Ahead (· = token)) p Q :=
  h.mono (fun _ hc => ⟨hc.1, hc.2.mono fun _ ht => ht ▸ hk⟩) fun _ _ h => h

/-- A look at the next token that asks for a property of it. -/
theorem Ensures.ask (hP : ∀ c, P c → c.Live text) (p : Token → Bool) :
    Ensures P (return (← Parse.peek).any p) fun b c => P c ∧ (b = true ↔ c.Ahead (p · = true)) := by
  refine (Ensures.peek hP).bind fun t => Ensures.pure ?_
  rintro c ⟨hc, token, rfl, t, rest, hrest, rfl⟩
  refine ⟨hc, fun h => ⟨t, rest, hrest, h⟩, ?_⟩
  rintro ⟨t', rest', hrest', h⟩
  rw [hrest] at hrest'
  cases hrest'
  exact h

/-- A test that changes nothing and holds only before the end of a text. -/
def Guards (text : String) (test : Parse Bool) : Prop :=
  Ensures (Cursor.Live text) test fun b c => c.Live text ∧ (b = true → c.Inside text)

namespace Guards

theorem of_ask {p : Token → Bool}
    (hp : ∀ t : Token, t.Regular → p t = true → t.kind ≠ .endOfInput) :
    Guards text (return (← Parse.peek).any p) := by
  refine (Ensures.ask (fun _ hc => hc) p).weaken ?_
  rintro b c ⟨hc, hb⟩
  refine ⟨hc, fun h => ⟨hc, ?_⟩⟩
  obtain ⟨t, rest, hrest, ht⟩ := hb.1 h
  exact ⟨t, rest, hrest, hp t (hc.regular (by rw [hrest]; exact List.mem_cons_self)) ht⟩

theorem sees {kind : Kind} (h : kind ≠ .endOfInput) : Guards text (Parse.sees kind) := by
  refine of_ask fun t _ ht => ?_
  rw [of_decide_eq_true ht]
  exact h

theorem seesAny {kinds : List Kind} (h : .endOfInput ∉ kinds) :
    Guards text (Parse.seesAny kinds) := by
  refine of_ask fun t _ ht he => h ?_
  rw [List.contains_iff_mem, he] at ht
  exact ht

theorem seesWord {word : String} (h : word ≠ "") : Guards text (Parse.seesWord word) := by
  refine of_ask fun t hreg ht he => h ?_
  rw [← of_decide_eq_true ht, hreg.endOfInput.1 he]

theorem seesAnyWord {words : List String} (h : "" ∉ words) :
    Guards text (Parse.seesAnyWord words) := by
  refine of_ask fun t hreg ht he => h ?_
  rw [List.contains_iff_mem, hreg.endOfInput.1 he] at ht
  exact ht

end Guards

/-! ## Taking tokens -/

section Take

variable {c : Cursor} {t : Token} {rest : List Lexeme}

theorem pop_of_token (h : c.rest = .token t :: rest) : pop.run c = (some t, c.advance) := by
  change ((peek.run c).1, (peek.run c).2.advance) = _
  rw [peek_of_token h]

theorem bump_of_token (h : c.rest = .token t :: rest) : bump.run c = ((), c.advance.skip) := by
  change ((), (pop.run c).2.skip) = _
  rw [pop_of_token h]

theorem advance_of_token (h : c.rest = .token t :: rest) (ht : t.kind.isIgnored = false) :
    c.advance = { c with rest := rest, reach := t.stop } := by
  simp [Cursor.advance, h, ht]

theorem rest_advance (h : c.rest = .token t :: rest) : c.advance.rest = rest := by
  simp [Cursor.advance, h]

theorem live_advance (h : c.Live text) (hrest : c.rest = .token t :: rest)
    (ht : t.kind ≠ .endOfInput) : c.advance.Live text := by
  refine ⟨?_, ?_, ?_⟩
  · simpa [Cursor.advance, hrest] using h.heard
  · rw [rest_advance hrest]
    exact (List.suffix_cons _ _).trans (hrest ▸ h.suffix)
  · rw [rest_advance hrest]
    exact h.tail_ne_nil hrest fun _ h' => by cases h'; exact ht

end Take

/-- The lexemes are tokens that do not count. -/
def Ignored (ls : List Lexeme) : Prop := ∀ l ∈ ls, ∃ t, l = .token t ∧ t.kind.isIgnored = true

theorem skipList_clean {ls : List Lexeme} {errors : List SyntaxError}
    (hclean : (Cursor.skipList ls errors).2 = []) :
    ∃ gap, ls = gap ++ (Cursor.skipList ls errors).1 ∧ Ignored gap ∧
      ((Cursor.skipList ls errors).1 = [] ∨
        ∃ t rest, (Cursor.skipList ls errors).1 = .token t :: rest ∧ t.kind.isIgnored = false) := by
  fun_induction Cursor.skipList ls errors with
  | case1 error _ rest errors ih =>
    have := (Cursor.skipList_suffix rest (error :: errors))
    rw [hclean, List.suffix_nil] at this
    cases this
  | case2 t rest errors ht ih =>
    obtain ⟨gap, hgap, hign, hnext⟩ := ih hclean
    refine ⟨.token t :: gap, by rw [List.cons_append, ← hgap], ?_, hnext⟩
    intro l hl
    rcases List.mem_cons.1 hl with rfl | hl
    · exact ⟨t, rfl, ht⟩
    · exact hign l hl
  | case3 t rest errors ht =>
    exact ⟨[], rfl, by simp [Ignored], .inr ⟨t, rest, rfl, by simpa using ht⟩⟩
  | case4 => exact ⟨[], rfl, by simp [Ignored], .inl rfl⟩

/-- In a clean run skipping drops tokens that do not count, up to one that does. -/
theorem skip_clean {c : Cursor} (h : c.Live text) (hclean : c.skip.errors = []) :
    ∃ gap, c.rest = gap ++ c.skip.rest ∧ Ignored gap ∧ c.skip.reach = c.reach ∧
      c.skip.Live text ∧ c.skip.Ahead (·.kind.isIgnored = false) := by
  have hlist : (Cursor.skipList c.rest c.errors).2 = [] := hclean
  obtain ⟨gap, hgap, hign, hnext⟩ := skipList_clean hlist
  have hne : (Cursor.skipList c.rest c.errors).1 ≠ [] := by
    intro hnil
    obtain ⟨offset, cs, hscan, _⟩ := h.exists_scanFrom
    obtain ⟨t, ht, hk⟩ := Lexeme.exists_endOfInput_mem offset cs
    rw [← hscan, hgap, hnil, List.append_nil] at ht
    obtain ⟨t', ht', hk'⟩ := hign _ ht
    cases ht'
    rw [hk] at hk'
    cases hk'
  refine ⟨gap, hgap, hign, rfl, ⟨h.heard, ?_, hne⟩, ?_⟩
  · refine List.IsSuffix.trans ?_ h.suffix
    rw [hgap]
    exact List.suffix_append _ _
  · rcases hnext with hnil | ⟨t, rest, hrest, ht⟩
    · exact absurd hnil hne
    · exact ⟨t, rest, hrest, ht⟩

theorem Ensures.skip : Ensures (Cursor.Live text) skip fun _ => Cursor.Live text := by
  intro c hc hclean
  obtain ⟨_, _, _, _, hlive, _⟩ := skip_clean hc hclean
  exact hlive

theorem Ensures.bump : Ensures (Cursor.Inside text) bump fun _ => Cursor.Live text := by
  rintro c ⟨hc, t, rest, hrest, ht⟩ hclean
  rw [bump_of_token hrest] at hclean ⊢
  exact Ensures.skip c.advance (live_advance hc hrest ht) hclean

/-! ## Looking past the next token -/

theorem second_of_eq_some {c : Cursor} {t head : Token} {rest : List Lexeme}
    (hrest : c.rest = .token head :: rest) (h : c.second? = some t) :
    c.Second t ∧ .token t ∈ c.rest ∧ (t.kind.isIgnored = true → t.kind = .punctuator ',') := by
  rw [Cursor.second?, hrest, List.tail_cons, List.findSome?_eq_some_iff] at h
  obtain ⟨gap, l, rest, rfl, hl, hgap⟩ := h
  cases l with
  | invalid error slice => cases hl
  | token u =>
    dsimp only at hl
    split at hl
    · cases hl
    · rename_i hk
      cases hl
      refine ⟨⟨head, gap, rest, hrest, fun u hu => ?_⟩, by simp [hrest], fun hign => ?_⟩
      · have hnone := hgap _ hu
        simp only [ite_eq_left_iff, reduceCtorEq, imp_false, not_not] at hnone
        rcases hnone with hk | hk <;> rw [hk] <;> rfl
      · unfold Kind.isIgnored at hign
        split at hign
        · exact absurd (.inl ‹_›) hk
        · exact absurd (.inr ‹_›) hk
        · assumption
        · cases hign

/-- What a clean run knows of the token behind the next one. -/
theorem Ensures.second :
    Ensures (Cursor.Inside text) second fun r c => c.Inside text ∧ ∀ t, r = some t →
      c.Second t ∧ t.Regular ∧ (t.kind.isIgnored = true → t.kind = .punctuator ',') := by
  rintro c ⟨hc, head, rest, hrest, hk⟩ _
  have hrun : Parse.second.run c = (c.second?, c) := by
    change (c.settle.second?, c.settle) = _
    rw [settle_of_token hrest]
  rw [hrun]
  refine ⟨⟨hc, head, rest, hrest, hk⟩, fun t ht => ?_⟩
  obtain ⟨hsecond, hmem, hcomma⟩ := second_of_eq_some hrest ht
  exact ⟨hsecond, hc.regular hmem, hcomma⟩

theorem skipList_gap {gap rest : List Lexeme} {t : Token} (ht : t.kind.isIgnored = false)
    (hgap : ∀ u, .token u ∈ gap → u.kind.isIgnored = true) (errors : List SyntaxError) :
    (Cursor.skipList (gap ++ .token t :: rest) errors).1 = .token t :: rest := by
  induction gap generalizing errors with
  | nil => simp [Cursor.skipList, ht]
  | cons l ls ih =>
    have hls := fun u hu => hgap u (List.mem_cons_of_mem _ hu)
    cases l with
    | invalid error slice => exact ih hls (error :: errors)
    | token u =>
      have hu := hgap u List.mem_cons_self
      rw [List.cons_append, Cursor.skipList, if_pos hu]
      exact ih hls errors

/-- Taking the next token leads to the one behind it. -/
theorem Ensures.bumpSecond {t : Token} (ht : t.kind.isIgnored = false) :
    Ensures (fun c => c.Inside text ∧ c.Second t) Parse.bump fun _ c =>
      c.Live text ∧ c.Ahead (· = t) := by
  rintro c ⟨hc, head, gap, rest, hrest, hgap⟩ hclean
  refine ⟨Ensures.bump c hc hclean, t, rest, ?_, rfl⟩
  rw [bump_of_token hrest]
  change (Cursor.skipList c.advance.rest c.advance.errors).1 = _
  rw [rest_advance hrest]
  exact skipList_gap ht hgap _

/-! ## Complaints end a clean run -/

/-- No clean run gets past it. -/
def Rejects (text : String) (p : Parse α) : Prop :=
  Ensures (Cursor.Live text) p fun _ _ => False

theorem Rejects.ensures {p : Parse α} {Q : α → Cursor → Prop} (h : Rejects text p) :
    Ensures (Cursor.Live text) p Q :=
  Ensures.weaken h fun _ _ => False.elim

theorem Rejects.bind {p : Parse α} {f : α → Parse β} (h : Rejects text p) :
    Rejects text (p >>= f) :=
  Ensures.bind h fun _ _ hc => hc.elim

theorem Ensures.report (message : String) (offset : Nat) :
    Ensures (fun c => c.silenced = false) (report message offset) fun _ _ => False := by
  intro c hc hclean
  have : (c.report message offset).errors = [] := hclean
  simp [Cursor.report, hc] at this

theorem rejects_report (message : String) (offset : Nat) : Rejects text (report message offset) :=
  (Ensures.report message offset).mono (fun _ hc => hc.heard) fun _ _ h => h

theorem rejects_complain (message : String) : Rejects text (complain message) :=
  Ensures.peekThen fun token _ => (rejects_report message token.offset).ensures.ofLive

theorem rejects_complainAndDrop (message : String) : Rejects text (complainAndDrop message) := by
  have hpop : Ensures (Cursor.Live text) pop fun t c => t.isSome = true ∧ c.silenced = false := by
    intro c hc hclean
    obtain ⟨t, rest, hrest, _⟩ := peek_clean hc (clean_before advance hclean)
    rw [pop_of_token hrest]
    refine ⟨rfl, ?_⟩
    simpa [Cursor.advance, hrest] using hc.heard
  refine hpop.bind fun t => ?_
  rintro c ⟨ht, hc⟩
  obtain ⟨token, rfl⟩ := Option.isSome_iff_exists.1 ht
  have hfault : Ensures (fun c => c.silenced = false)
      (do report message token.offset; skip) fun _ _ => False :=
    (Ensures.report message token.offset).bind fun _ _ h => h.elim
  exact hfault c hc

theorem rejects_tooDeep : Rejects text tooDeep :=
  Ensures.peekThen fun token _ => (rejects_report _ token.offset).bind.ensures.ofLive

/-- With a culprit there is no clean run, without one nothing happens. -/
theorem Ensures.blame (message : String) (culprit : Option Token) :
    Ensures (fun c => (culprit.isSome = true ∧ c.silenced = false) ∨ (culprit = none ∧ P c))
      (blame message culprit) fun _ => P := by
  rintro c (⟨hsome, hheard⟩ | ⟨rfl, hc⟩) hclean
  · obtain ⟨token, rfl⟩ := Option.isSome_iff_exists.1 hsome
    exact (Ensures.report message token.offset c hheard hclean).elim
  · exact hc

/-! ## Optional and repeated parts -/

namespace Ensures

variable {Q : α → Cursor → Prop}

theorem given {test : Parse Bool} {item otherwise : Parse α} (ht : Guards text test)
    (hitem : Ensures (Cursor.Inside text) item Q)
    (hotherwise : Ensures (Cursor.Live text) otherwise Q) :
    Ensures (Cursor.Live text) (Parse.given test item otherwise) Q := by
  refine Ensures.bind ht fun b => Ensures.ite ?_ ?_
  · exact fun hb => hitem.mono (fun c hc => hc.2 hb) fun _ _ h => h
  · exact fun _ => hotherwise.mono (fun c hc => hc.1) fun _ _ h => h

theorem givenPure {b : Bool} {item otherwise : Parse α} (hitem : b = true → Ensures P item Q)
    (hotherwise : b = false → Ensures P otherwise Q) :
    Ensures P (Parse.given (Pure.pure b) item otherwise) Q := by
  cases b with
  | true => exact hitem rfl
  | false => exact hotherwise rfl

theorem whenever {test : Parse Bool} {item : Parse Unit} (ht : Guards text test)
    (hitem : Ensures (Cursor.Inside text) item fun _ => Cursor.Live text) :
    Ensures (Cursor.Live text) (whenever test item) fun _ => Cursor.Live text :=
  Ensures.given ht hitem (Ensures.pure fun _ hc => hc)

theorem demand {test : Parse Bool}
    (ht : Ensures (Cursor.Live text) test fun _ => Cursor.Live text) (complaint : String) :
    Ensures (Cursor.Live text) (demand test complaint) fun _ => Cursor.Live text :=
  Ensures.bind ht fun _ => Ensures.ite (fun _ => Ensures.pure fun _ hc => hc) fun _ =>
    (rejects_complain complaint).ensures

theorem repeatUpTo {more : Parse Bool} {item : Parse α} {G : α → Prop} (hmore : Guards text more)
    (hitem : Ensures (Cursor.Inside text) item fun a c => c.Live text ∧ G a) (n : Nat) :
    Ensures (Cursor.Live text) (repeatUpTo more item n) fun as c =>
      c.Live text ∧ ∀ a ∈ as, G a := by
  induction n with
  | zero => exact Ensures.pure fun _ hc => ⟨hc, by simp⟩
  | succ n ih =>
    refine Ensures.given hmore ?_ (Ensures.pure fun _ hc => ⟨hc, by simp⟩)
    refine hitem.andThen fun a ha => ih.andThen fun as has => Ensures.pure fun _ hc => ⟨hc, ?_⟩
    exact List.forall_mem_cons.2 ⟨ha, has⟩

theorem many {more : Parse Bool} {item : Parse α} {G : α → Prop} (hmore : Guards text more)
    (hitem : Ensures (Cursor.Inside text) item fun a c => c.Live text ∧ G a) :
    Ensures (Cursor.Live text) (many more item) fun as c => c.Live text ∧ ∀ a ∈ as, G a :=
  Ensures.bind (Ensures.inspect fun _ hc => hc) fun n => repeatUpTo hmore hitem n

theorem expect {kind : Kind} (h : kind ≠ .endOfInput) (label : String) :
    Ensures (Cursor.Live text) (expect kind label) fun _ => Cursor.Live text := by
  refine Ensures.peekThen fun token _ => Ensures.ite (fun hk => ?_) fun _ => ?_
  · exact Ensures.bump.ofInside (hk ▸ h)
  · refine Ensures.ite (fun _ => ?_) fun _ => ?_
    · exact (rejects_report _ _).ensures.ofLive
    · exact (rejects_report _ _).ensures.ofLive

/-- A name that a clean run reads is one, and it is taken like any other token. -/
theorem nameThen {R : Cursor → Prop} (hP : ∀ c, P c → c.Live text)
    (htake : Ensures (fun c => P c ∧ c.Ahead (·.kind = .name)) Parse.bump fun _ => R)
    (complaint : String) :
    Ensures P (name complaint) fun n c => R c ∧ ∃ s, n = some s ∧ isName s.toList = true := by
  refine Ensures.bind (Ensures.ask hP (·.kind = .name)) fun b => Ensures.ite ?_ ?_
  · intro hb
    refine Ensures.bind (Ensures.peek fun c hc => hP c hc.1) fun t => ?_
    rintro c ⟨⟨hc, hname⟩, token, rfl, ha⟩
    obtain ⟨t, rest, hrest, ht⟩ := hname.1 hb
    obtain ⟨_, _, hrest', rfl⟩ := ha
    rw [hrest] at hrest'
    cases hrest'
    have hk : t.kind = .name := of_decide_eq_true ht
    have hreg := (hP c hc).regular (by rw [hrest]; exact List.mem_cons_self)
    have hread : Ensures (fun c => P c ∧ c.Ahead (·.kind = .name))
        (do Parse.bump; return some t.text) fun n c =>
          R c ∧ ∃ s, n = some s ∧ isName s.toList = true :=
      htake.bind fun _ => Ensures.pure fun c hc => ⟨hc, t.text, rfl, hreg.name hk⟩
    exact hread c ⟨hc, t, rest, hrest, hk⟩
  · intro _
    refine Ensures.mono ?_ (fun c hc => hP c hc.1) fun _ _ h => h
    exact (rejects_complain complaint).bind.ensures

theorem name (complaint : String) :
    Ensures (Cursor.Live text) (name complaint) fun n c =>
      c.Live text ∧ ∃ s, n = some s ∧ isName s.toList = true := by
  refine nameThen (fun _ hc => hc) (Ensures.bump.mono ?_ fun _ _ h => h) complaint
  exact fun c hc => ⟨hc.1, hc.2.mono fun t ht => by simp [ht]⟩

end Ensures

theorem Guards.keeps {test : Parse Bool} (h : Guards text test) :
    Ensures (Cursor.Live text) test fun _ => Cursor.Live text :=
  Ensures.weaken h fun _ _ hc => hc.1

end Parse

end SchemaCatalog.Sdl
