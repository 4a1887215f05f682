import SchemaCatalog.Proofs.Yaml.Scalar
import SchemaCatalog.Yaml.Token.Scan

/-!
# SchemaCatalog.Proofs.Yaml.FlowSteps

Steps of the scanner inside a flow mapping.

`Leads` says how a scan that succeeds changes the scanner, with a rule for each way in which scans
are put together, so a step is followed by following its text. Inside the one mapping of a text
most of the scanner stays as it is, which `inMapping` says by what it leaves out: lines do not
count, no key gets stale and no block is opened or closed. `reaches_of_dispatch` does for all
tokens what a step does before it comes to the token, and the lemmas behind it follow each of the
tokens.
-/

namespace SchemaCatalog.Yaml

namespace Scan

/-! ## Scans that succeed -/

section Leads

variable {α β : Type} {s s₁ s₂ : Scanner}

/-- A scan succeeds with a result and leaves a scanner. -/
def Leads (x : Scan α) (s : Scanner) (a : α) (s' : Scanner) : Prop := x.run s = (.ok a, s')

theorem leads_pure (a : α) : Leads (pure a) s a s := rfl

theorem run_bind {x : Scan α} {a : α} (hx : Leads x s a s₁) (f : α → Scan β) :
    (x >>= f).run s = (f a).run s₁ := by
  simp only [Leads, ExceptT.run, bind, ExceptT.bind, ExceptT.mk, StateT.bind] at hx ⊢
  rw [hx]
  rfl

theorem leads_bind {x : Scan α} {f : α → Scan β} {a : α} {b : β} (hx : Leads x s a s₁)
    (hf : Leads (f a) s₁ b s₂) : Leads (x >>= f) s b s₂ := by
  rw [Leads, run_bind hx]
  exact hf

theorem leads_modify (f : Scanner → Scanner) : Leads (modify f) s () (f s) := rfl

theorem leads_get : Leads get s s s := rfl

theorem leads_ofOption {o : Option α} {a : α} (h : o = some a) : Leads (ofOption o) s a s := by
  rw [h]
  rfl

/-- Steps that each take a character lead from one scanner to another. -/
inductive Reaches : Scanner → Scanner → Prop
  | refl (s : Scanner) : Reaches s s
  | cons {s s₁ s₂ : Scanner} (h : Leads step s true s₁)
      (shorter : s₁.place.rest.length < s.place.rest.length) (hs : Reaches s₁ s₂) : Reaches s s₂

theorem Reaches.trans (h : Reaches s s₁) (h' : Reaches s₁ s₂) : Reaches s s₂ := by
  induction h with
  | refl => exact h'
  | cons h shorter _ ih => exact .cons h shorter (ih h')

theorem Reaches.steps (h : Reaches s s₁) : ∃ n, n + s₁.place.rest.length ≤ s.place.rest.length ∧
    ∀ m, (Scan.steps (n + m)).run s = (Scan.steps m).run s₁ := by
  induction h with
  | refl s => exact ⟨0, by omega, fun m => by rw [Nat.zero_add]⟩
  | @cons s s₁ s₂ h shorter _ ih =>
    obtain ⟨n, hlength, hsteps⟩ := ih
    refine ⟨n + 1, by omega, fun m => ?_⟩
    rw [← hsteps m, Nat.add_right_comm, Scan.steps, run_bind h]
    rfl

end Leads

/-! ## Between tokens -/

/-- What sets out a line: nothing, or a line break and the spaces behind it. -/
inductive Lull : List Char → Prop
  | none : Lull []
  | line (n : Nat) : Lull ('\n' :: List.replicate n ' ')

theorem Lull.mem {blanks : List Char} (h : Lull blanks) : ∀ b ∈ blanks, b = ' ' ∨ b = '\n' := by
  cases h with
  | none => exact fun b hb => nomatch hb
  | line n =>
    intro b hb
    rcases List.mem_cons.1 hb with rfl | hb
    · exact .inr rfl
    · exact .inl (List.mem_replicate.1 hb).2

section Between

variable {p : Place} {c : Char} {blanks rest : List Char}

theorem between?_blanks (inBlock : Bool) (indent : Int) (fresh allowed : Bool)
    (hblanks : ∀ b ∈ blanks, b = ' ' ∨ b = '\n') (hp : p.rest = blanks ++ c :: rest)
    (hblank : isBlank c = false) (hbreak : isBreak c = false) (hc : c ≠ '#') :
    ∃ q fresh', between? inBlock true indent fresh allowed p = some (q, fresh', allowed) ∧
      q.rest = c :: rest ∧ (blanks = [] → q = p) := by
  induction blanks generalizing p fresh with
  | nil =>
    refine ⟨p, fresh, ?_, hp, fun _ => rfl⟩
    have htab : c ≠ '\t' := by rintro rfl; cases hblank
    cases p
    cases hp
    rw [between?]
    simp [hblank, hbreak, hc, htab]
  | cons b blanks ih =>
    obtain ⟨hb, hrest⟩ := List.forall_mem_cons.1 hblanks
    rcases hb with rfl | rfl
    · obtain ⟨q, fresh', hread, hq, _⟩ := ih fresh (p := p.forward 1) hrest
        (by rw [Place.rest_forward, hp]; rfl)
      refine ⟨q, fresh', ?_, hq, by simp⟩
      rw [← hread]
      cases p
      cases hp
      rw [between?]
      simp [isBlank]
    · obtain ⟨q, fresh', hread, hq, _⟩ := ih true (p := p.newline) hrest
        (by simp [Place.newline, hp])
      refine ⟨q, fresh', ?_, hq, by simp⟩
      rw [← hread]
      cases p
      cases hp
      rw [between?]
      simp [isBlank, isBreak]

end Between

/-! ## Steps in a flow mapping -/

/-- A scanner in the one flow mapping of a text. -/
def inMapping (outer : Option PossibleKey) (place : Place) (fresh : Bool) (tokens : Array Token)
    (key : Option PossibleKey) (keyAllowed : Bool) (adjacentAt : Option Nat) (settled : Nat) :
    Scanner where
  place := place
  fresh := fresh
  tokens := tokens
  propertyColumn := none
  indent := -1
  indents := []
  brackets := [.curly]
  keys := [key, outer]
  keyAllowed := keyAllowed
  pairs := []
  bracketed := true
  adjacentAt := adjacentAt
  settled := settled

variable {outer key : Option PossibleKey} {p q : Place} {fresh fresh' allowed : Bool}
  {tokens : Array Token} {adjacentAt : Option Nat} {settled : Nat} {c : Char}
  {rest blanks : List Char}

theorem place_inMapping :
    (inMapping outer p fresh tokens key allowed adjacentAt settled).place = p := rfl

theorem leads_skipBetween
    (h : between? false true (-1) fresh allowed p = some (q, fresh', allowed)) :
    Leads skipBetween (inMapping outer p fresh tokens key allowed adjacentAt settled) ()
      (inMapping outer q fresh' tokens key allowed adjacentAt settled) :=
  leads_bind leads_get (leads_bind (leads_ofOption h) (leads_modify _))

theorem leads_settle :
    Leads settle (inMapping outer p fresh tokens key allowed adjacentAt settled) ()
      (inMapping outer p fresh tokens key allowed adjacentAt
        (inMapping outer p fresh tokens key allowed adjacentAt settled).known) := rfl

/-- In a flow mapping lines do not count. -/
theorem leads_unroll :
    Leads (modify fun s => s.unroll s.place.column)
      (inMapping outer p fresh tokens key allowed adjacentAt settled) ()
      (inMapping outer p fresh tokens key allowed adjacentAt settled) := rfl

/-- In a flow mapping no key gets stale. -/
theorem leads_dropStaleKey :
    Leads dropStaleKey (inMapping outer p fresh tokens key allowed adjacentAt settled) ()
      (inMapping outer p fresh tokens key allowed adjacentAt settled) := by
  refine leads_bind leads_get ?_
  cases key <;> rfl

theorem leads_saveKey :
    Leads saveKey (inMapping outer p fresh tokens key allowed adjacentAt settled) ()
      (inMapping outer p fresh tokens
        (if allowed then some ⟨false, tokens.size, p.index, p.line, p.column⟩ else key) allowed
        adjacentAt settled) := by
  cases allowed <;> rfl

/-- A step in a flow mapping goes past the blanks and then past the token that stands there. -/
theorem reaches_of_dispatch {P : Scanner → Prop} (hblanks : ∀ b ∈ blanks, b = ' ' ∨ b = '\n')
    (hp : p.rest = blanks ++ c :: rest) (hblank : isBlank c = false) (hbreak : isBreak c = false)
    (hc : c ∉ ['#', '%', '-', '.'])
    (hdispatch : ∀ q fresh' settled', q.rest = c :: rest → (blanks = [] → q = p) → ∃ s₁,
      Leads (dispatch c rest) (inMapping outer q fresh' tokens key allowed adjacentAt settled') ()
        s₁ ∧ s₁.place.rest.length ≤ rest.length ∧ ∃ s', Reaches s₁ s' ∧ P s') :
    ∃ s', Reaches (inMapping outer p fresh tokens key allowed adjacentAt settled) s' ∧ P s' := by
  simp only [List.mem_cons, List.not_mem_nil, or_false, not_or] at hc
  obtain ⟨hcomment, hpercent, hhyphen, hpoint⟩ := hc
  obtain ⟨q, fresh', hbetween, hq, hstay⟩ :=
    between?_blanks false (-1) fresh allowed hblanks hp hblank hbreak hcomment
  obtain ⟨s₁, hleads, hlength, s', hreaches, hs'⟩ := hdispatch q fresh'
    (inMapping outer p fresh tokens key allowed adjacentAt settled).known hq hstay
  refine ⟨s', .cons ?_ ?_ hreaches, hs'⟩
  · have hstart : atDocumentStart (c :: rest) = false := by simp [atDocumentStart, hhyphen]
    have hend : atDocumentEnd (c :: rest) = false := by simp [atDocumentEnd, hpoint]
    have hindent : ¬ (q.column : Int) < -1 := by omega
    refine leads_bind leads_settle (leads_bind (leads_skipBetween hbetween)
      (leads_bind leads_dropStaleKey (leads_bind leads_unroll (leads_bind leads_get ?_))))
    cases q
    cases hq
    simp only [inMapping] at hleads hindent ⊢
    simp only [hpercent, hstart, hend, hindent, and_false, if_false, Bool.false_eq_true]
    exact leads_bind hleads (leads_pure true)
  · simp only [inMapping, hp, List.length_append, List.length_cons]
    omega

/-! ## Tokens in a flow mapping -/

theorem leads_comma {d : Char} {tail : List Char} (hq : q.rest = ',' :: d :: tail)
    (hblank : isBlank d = false) (hd : d ≠ '#') :
    Leads (dispatch ',' (d :: tail))
      (inMapping outer q fresh tokens none allowed adjacentAt settled) ()
      (inMapping outer (q.forward 1) false (tokens.push .flowEntry) none true adjacentAt
        settled) := by
  have htail : (q.forward 1).tail? = some (q.forward 1) :=
    Place.tail?_of_cons (by rw [Place.rest_forward, hq]; rfl) hblank hd
  have hdrop : Leads dropKey (inMapping outer q fresh tokens none allowed adjacentAt settled) ()
      (inMapping outer q fresh tokens none allowed adjacentAt settled) := rfl
  refine leads_bind leads_get ?_
  change Leads flowEntry _ _ _
  refine leads_bind hdrop (leads_bind (leads_modify _) (leads_bind leads_get ?_))
  refine leads_bind (leads_pure ()) (leads_bind leads_get (leads_bind (leads_ofOption htail) ?_))
  exact leads_bind (leads_modify _) (leads_modify _)

theorem insertIdx_push {α : Type} (as : Array α) (a b : α) :
    (as.push a).insertIdxIfInBounds as.size b = (as.push b).push a := by
  rw [Array.insertIdxIfInBounds, dif_pos (by simp)]
  apply Array.ext
  · simp
  · intro i h h'
    grind

theorem leads_value {k : PossibleKey} {d : Char} {tail : List Char} (hq : q.rest = ':' :: d :: tail)
    (hd : d ≠ '\t') :
    Leads value (inMapping outer q fresh tokens (some k) allowed adjacentAt settled) ()
      (inMapping outer (q.forward 1) false ((tokens.insertIdxIfInBounds k.number .key).push .value)
        none false adjacentAt settled) := by
  have hcolon : pastColon (q.forward 1) = some (q.forward 1) := by
    have hrest : (q.forward 1).rest = d :: tail := by rw [Place.rest_forward, hq]; rfl
    rw [pastColon, hrest]
    split
    · rename_i heq
      cases heq
      exact absurd rfl hd
    · rfl
  refine leads_bind leads_get (leads_bind (leads_ofOption hcolon) (leads_bind (leads_modify _) ?_))
  exact rfl

theorem leads_colon {k : PossibleKey} {d : Char} {tail : List Char} (hq : q.rest = ':' :: d :: tail)
    (hd : d ≠ '\t') :
    Leads (dispatch ':' (d :: tail))
      (inMapping outer q fresh tokens (some k) allowed (some q.index) settled) ()
      (inMapping outer (q.forward 1) false ((tokens.insertIdxIfInBounds k.number .key).push .value)
        none false (some q.index) settled) := by
  refine leads_bind leads_get ?_
  cases hspaced : atBlankOrEnd (d :: tail) with
  | true => exact leads_value hq hd
  | false =>
    have hadjacent : Leads adjacentValue
        (inMapping outer q fresh tokens (some k) allowed (some q.index) settled) ()
        (inMapping outer (q.forward 1) false
          ((tokens.insertIdxIfInBounds k.number .key).push .value) none false (some q.index)
          settled) := by
      refine leads_bind leads_get ?_
      rw [if_neg fun h => h.1 rfl]
      exact leads_value hq hd
    simpa [Scanner.inFlow, inMapping] using hadjacent

/-- The tokens of a string, which is a possible key where one may start. -/
theorem leads_quoted {s : String} {behind : List Char} {d : Char} {tail : List Char}
    (hq : q.rest = Json.Writer.string (some s) ++ (blanks ++ d :: tail)) (hblanks : Lull blanks)
    (hd : d = ':' ∨ d = ',' ∨ d = '\x7d') :
    ∃ r fresh', r.rest = d :: tail ∧ Leads (dispatch '"' behind)
      (inMapping outer q fresh tokens key allowed adjacentAt settled) ()
      (inMapping outer r fresh' (tokens.push (.scalar .quoted s))
        (if allowed then some ⟨false, tokens.size, q.index, q.line, q.column⟩ else key) false
        (some r.index) settled) := by
  have hfollows : ∃ e more, blanks ++ d :: tail = e :: more ∧ Quoted.Follows e := by
    cases hblanks with
    | none => exact ⟨d, tail, rfl, by rcases hd with rfl | rfl | rfl <;> simp [Quoted.Follows]⟩
    | line n => exact ⟨'\n', _, rfl, by simp [Quoted.Follows]⟩
  obtain ⟨e, more, hmore, he⟩ := hfollows
  have hscalar : Quoted.scalar? false true (-1) q = some (s, _) :=
    Quoted.scalar?_written (by decide) (hmore ▸ hq) he
  obtain ⟨hblank, hbreak, hcomment⟩ : isBlank d = false ∧ isBreak d = false ∧ d ≠ '#' := by
    rcases hd with rfl | rfl | rfl <;> decide
  obtain ⟨r, fresh', hbetween, hr, _⟩ := between?_blanks false (-1) false false hblanks.mem
    (Place.rest_forward_append hq) hblank hbreak hcomment
  refine ⟨r, fresh', hr, leads_bind leads_get ?_⟩
  change Leads (quotedScalar false) _ _ _
  refine leads_bind leads_saveKey (leads_bind (leads_modify _) (leads_bind leads_get ?_))
  refine leads_bind (leads_ofOption hscalar) (leads_bind (leads_modify _) ?_)
  exact leads_bind (leads_skipBetween hbetween) rfl

/-- The token of a number, which is no key. -/
theorem leads_number {n : Nat} {behind : List Char} {d : Char} {tail : List Char}
    (hq : q.rest = Json.Writer.digits n ++ (blanks ++ d :: tail)) (hblanks : Lull blanks)
    (hd : d = ',' ∨ d = '\x7d') (hc : isDigit c = true) :
    ∃ r fresh' allowed, r.rest = d :: tail ∧ Leads (dispatch c behind)
      (inMapping outer q fresh tokens none false adjacentAt settled) ()
      (inMapping outer r fresh'
        (tokens.push (.scalar .plain (String.ofList (Json.Writer.digits n)))) none allowed
        adjacentAt settled) := by
  have hne := fun e => Plain.ne_of_isDigit (d := e) hc
  obtain ⟨fresh', r, hscalar, hr⟩ : ∃ fresh' r, Plain.scalar? true fresh (-1 + 1) q =
      some (String.ofList (Json.Writer.digits n), fresh', r) ∧ r.rest = d :: tail :=
    Plain.scalar?_written fresh hblanks.mem hq hd (by decide)
  have hplain : Leads plainScalar (inMapping outer q fresh tokens none false adjacentAt settled) ()
      (inMapping outer r fresh'
        (tokens.push (.scalar .plain (String.ofList (Json.Writer.digits n)))) none fresh' adjacentAt
        settled) := by
    refine leads_bind (leads_modify _) (leads_bind (leads_modify _) (leads_bind (leads_modify _)
      (leads_bind leads_get (leads_bind (leads_ofOption hscalar) ?_))))
    cases fresh' <;> exact rfl
  refine ⟨r, fresh', fresh', hr, leads_bind leads_get ?_⟩
  simp only [hne '[' rfl, hne '\x7b' rfl, hne ']' rfl, hne '\x7d' rfl, hne ',' rfl, hne '-' rfl,
    hne '?' rfl, hne ':' rfl, hne '*' rfl, hne '&' rfl, hne '!' rfl, hne '|' rfl, hne '>' rfl,
    hne '\'' rfl, hne '"' rfl, hne '%' rfl, hne '@' rfl, hne '\x60' rfl, if_false, false_and,
    or_false]
  exact hplain

end Scan

end SchemaCatalog.Yaml
