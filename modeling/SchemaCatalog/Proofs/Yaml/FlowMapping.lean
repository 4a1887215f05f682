import Mathlib.Data.List.TakeWhile
import SchemaCatalog.Proofs.Yaml.FlowSteps

/-!
# SchemaCatalog.Proofs.Yaml.FlowMapping

The tokens of a JSON object of texts and numbers, scanned as YAML.

A member takes three steps, or four with the comma before it: the key is scanned as a text that
may be a key, the colon announces it by a token that goes before the text, and the value stands
behind (`reaches_member`). What has been scanned then does not depend on how the text is laid out,
so the members follow each other by induction (`reaches_members`), and every step takes a
character, so the steps that a scan may take are enough (`tokens_record`).
-/

namespace SchemaCatalog.Yaml

open Text (hexDigit)

/-- A JSON value that YAML reads as a scalar: a text or a whole number. -/
inductive Leaf where
  | text (s : String)
  | nat (n : Nat)

namespace Leaf

def toJson : Leaf → Json
  | text s => .text s
  | nat n => .nat n

def style : Leaf → Style
  | text _ => .quoted
  | nat _ => .plain

/-- The text of the scalar. -/
def content : Leaf → String
  | text s => s
  | nat n => String.ofList (Json.Writer.digits n)

def token (leaf : Leaf) : Token := .scalar leaf.style leaf.content

theorem value_nat (layout : Json.Layout) (level n : Nat) :
    Json.Writer.value layout level (nat n).toJson = Json.Writer.digits n := by
  rw [toJson, Json.nat, Json.Writer.value, Json.Writer.numeral]
  simp

theorem digits_cons (n : Nat) :
    ∃ c more, Json.Writer.digits n = c :: more ∧ isDigit c = true := by
  rcases Json.Reader.digits_cases n with ⟨_, h⟩ | ⟨c, more, h, _, hc⟩
  · exact ⟨_, _, h, by decide⟩
  · exact ⟨c, more, h, hc⟩

theorem value_cons (layout : Json.Layout) (level : Nat) (leaf : Leaf) :
    ∃ c more, Json.Writer.value layout level leaf.toJson = c :: more ∧ c ≠ '\t' := by
  cases leaf with
  | text s => exact ⟨_, _, rfl, by decide⟩
  | nat n =>
    obtain ⟨c, more, h, hc⟩ := digits_cons n
    exact ⟨c, more, (value_nat layout level n).trans h, Plain.ne_of_isDigit hc rfl⟩

end Leaf

/-- The tokens of a member. -/
def memberTokens (member : String × Leaf) : List Token :=
  [.key, .scalar .quoted member.1, .value, member.2.token]

namespace Scan

variable {outer key : Option PossibleKey} {p q : Place} {fresh fresh' allowed : Bool}
  {tokens : Array Token} {adjacentAt : Option Nat} {settled : Nat} {c : Char}
  {rest blanks : List Char}

/-! ## Members -/

/-- A scanner in the mapping that waits for no colon, with the tokens so far and what still
stands before it. -/
def Amid (outer : Option PossibleKey) (tokens : Array Token) (rest : List Char) (allowed : Bool)
    (s : Scanner) : Prop :=
  ∃ place fresh adjacentAt settled, place.rest = rest ∧
    s = inMapping outer place fresh tokens none allowed adjacentAt settled

variable {s : Scanner} {d : Char} {tail : List Char} {layout : Json.Layout}

theorem colon_cases (layout : Json.Layout) :
    ∃ spaces, Json.Writer.colon layout = ':' :: spaces ∧ ∀ b ∈ spaces, b = ' ' := by
  cases layout
  · exact ⟨[], rfl, by simp⟩
  · exact ⟨[' '], rfl, by simp⟩

/-- Two steps lead from a member to its value: one past its key, and one past the colon, which
goes back to announce the key. -/
theorem reaches_value {name : String} (hblanks : Lull blanks) (hd : d ≠ '\t')
    (hs : Amid outer tokens (blanks ++ (Json.Writer.string (some name) ++
      (Json.Writer.colon layout ++ d :: tail))) true s) :
    ∃ spaces, (∀ b ∈ spaces, b = ' ' ∨ b = '\n') ∧ ∃ s', Reaches s s' ∧
      Amid outer (((tokens.push .key).push (.scalar .quoted name)).push .value)
        (spaces ++ d :: tail) false s' := by
  obtain ⟨p, fresh, adjacentAt, settled, hp, rfl⟩ := hs
  obtain ⟨spaces, hcolon, hspaces⟩ := colon_cases layout
  obtain ⟨e, more, hmore, he⟩ : ∃ e more, spaces ++ d :: tail = e :: more ∧ e ≠ '\t' := by
    cases spaces with
    | nil => exact ⟨d, tail, rfl, hd⟩
    | cons b spaces => exact ⟨b, _, rfl, by rw [hspaces b List.mem_cons_self]; decide⟩
  rw [hcolon, List.cons_append, hmore] at hp
  refine ⟨spaces, fun b hb => .inl (hspaces b hb), ?_⟩
  refine reaches_of_dispatch hblanks.mem hp rfl rfl (by decide) fun q fresh settled hq _ => ?_
  obtain ⟨r, fresh, hr, hkey⟩ := leads_quoted hq .none (.inl rfl)
  refine ⟨_, hkey, ?_, ?_⟩
  · rw [place_inMapping, hr]
    simp only [List.append_eq, List.length_append, List.length_cons]
    omega
  refine reaches_of_dispatch (List.forall_mem_nil _) hr rfl rfl (by decide)
    fun q _ settled hq hstay => ?_
  obtain rfl := hstay rfl
  have hbehind : (q.forward 1).rest = e :: more := by
    rw [Place.rest_forward, hq]
    rfl
  refine ⟨_, leads_colon hq he, ?_, _, .refl _, q.forward 1, false, some q.index, settled, ?_,
    ?_⟩
  · simp only [place_inMapping, hbehind, Nat.le_refl]
  · rw [hbehind, hmore]
  · simp only [insertIdx_push]

/-- One step leads past the value of a member. -/
theorem reaches_leaf {leaf : Leaf} {level : Nat} {behind : List Char}
    (hblanks : ∀ b ∈ blanks, b = ' ' ∨ b = '\n') (hbehind : Lull behind)
    (hd : d = ',' ∨ d = '\x7d')
    (hs : Amid outer tokens (blanks ++ (Json.Writer.value layout level leaf.toJson ++
      (behind ++ d :: tail))) false s) :
    ∃ s', Reaches s s' ∧ ∃ allowed, Amid outer (tokens.push leaf.token) (d :: tail) allowed s' := by
  obtain ⟨p, fresh, adjacentAt, settled, hp, rfl⟩ := hs
  cases leaf with
  | text t =>
    refine reaches_of_dispatch hblanks hp rfl rfl (by decide) fun q fresh settled hq _ => ?_
    obtain ⟨r, fresh, hr, hleads⟩ := leads_quoted hq hbehind (.inr hd)
    refine ⟨_, hleads, ?_, _, .refl _, false, r, fresh, some r.index, settled, hr, rfl⟩
    rw [place_inMapping, hr]
    simp only [List.append_eq, List.length_append, List.length_cons]
    omega
  | nat n =>
    rw [Leaf.value_nat] at hp
    obtain ⟨c, more, hdigits, hc⟩ := Leaf.digits_cons n
    have hrest := hp
    rw [hdigits, List.cons_append] at hp
    have hne := fun e => Plain.ne_of_isDigit (d := e) hc
    obtain ⟨hblank, hbreak, _⟩ := Plain.not_special_of_isDigit hc
    refine reaches_of_dispatch hblanks hp hblank hbreak
      (by simp [hne '#' rfl, hne '%' rfl, hne '-' rfl, hne '.' rfl]) fun q fresh settled hq _ => ?_
    rw [← List.cons_append, ← hdigits] at hq
    obtain ⟨r, fresh, allowed, hr, hleads⟩ := leads_number hq hbehind hd hc
    refine ⟨_, hleads, ?_, _, .refl _, allowed, r, fresh, adjacentAt, settled, hr, rfl⟩
    rw [place_inMapping, hr]
    simp only [List.length_append, List.length_cons]
    omega

/-- One step leads past the comma before a member. -/
theorem reaches_comma (hblank : isBlank d = false) (hd : d ≠ '#')
    (hs : Amid outer tokens (',' :: d :: tail) allowed s) :
    ∃ s', Reaches s s' ∧ Amid outer (tokens.push .flowEntry) (d :: tail) true s' := by
  obtain ⟨p, fresh, adjacentAt, settled, hp, rfl⟩ := hs
  refine reaches_of_dispatch (List.forall_mem_nil _) hp rfl rfl (by decide)
    fun q fresh settled hq _ => ?_
  have hbehind : (q.forward 1).rest = d :: tail := by
    rw [Place.rest_forward, hq]
    rfl
  refine ⟨_, leads_comma hq hblank hd, ?_, _, .refl _, q.forward 1, false, adjacentAt, settled,
    hbehind, rfl⟩
  simp only [place_inMapping, hbehind, Nat.le_refl]

theorem lull_gap (layout : Json.Layout) (level : Nat) : Lull (Json.Writer.gap layout level) := by
  cases layout with
  | compact => exact .none
  | pretty => exact .line _

theorem member_starts (layout : Json.Layout) (level : Nat) (name : String) (rest : List Char) :
    ∃ d tail, Json.Writer.gap layout level ++ (Json.Writer.string (some name) ++ rest) =
      d :: tail ∧ isBlank d = false ∧ d ≠ '#' := by
  cases layout with
  | compact => exact ⟨'"', _, rfl, by decide, by decide⟩
  | pretty => exact ⟨'\n', _, rfl, by decide, by decide⟩

theorem reaches_member {member : String × Leaf} {level : Nat} {behind : List Char}
    (hblanks : Lull blanks) (hbehind : Lull behind) (hd : d = ',' ∨ d = '\x7d')
    (hs : Amid outer tokens (blanks ++ (Json.Writer.string (some member.1) ++
      (Json.Writer.colon layout ++ (Json.Writer.value layout level member.2.toJson ++
        (behind ++ d :: tail))))) true s) :
    ∃ s', Reaches s s' ∧ ∃ allowed,
      Amid outer (tokens ++ (memberTokens member).toArray) (d :: tail) allowed s' := by
  obtain ⟨c, more, hvalue, hc⟩ := Leaf.value_cons layout level member.2
  rw [hvalue, List.cons_append] at hs
  obtain ⟨spaces, hspaces, s₁, hreaches, hs₁⟩ := reaches_value hblanks hc hs
  rw [← List.cons_append, ← hvalue] at hs₁
  obtain ⟨s₂, hreaches', allowed, hs₂⟩ := reaches_leaf hspaces hbehind hd hs₁
  have htokens : tokens ++ (memberTokens member).toArray =
      (((tokens.push .key).push (.scalar .quoted member.1)).push .value).push member.2.token := by
    apply Array.ext'
    simp [memberTokens]
  exact ⟨s₂, hreaches.trans hreaches', allowed, htokens ▸ hs₂⟩

/-- The members of the mapping up to its closing bracket. -/
theorem reaches_members {member : String × Leaf} {members : List (String × Leaf)} {level : Nat}
    (hs : Amid outer tokens (Json.Writer.gap layout level ++
      (Json.Writer.string (some member.1) ++ (Json.Writer.colon layout ++
        (Json.Writer.value layout level member.2.toJson ++
          (Json.Writer.members layout level
            (members.map fun other => (some other.1, other.2.toJson)) ++
            (Json.Writer.gap layout 0 ++ ['\x7d'])))))) true s) :
    ∃ s', Reaches s s' ∧ ∃ allowed, Amid outer (tokens ++ (memberTokens member ++
      members.flatMap fun other => .flowEntry :: memberTokens other).toArray) ['\x7d'] allowed
        s' := by
  induction members generalizing member tokens s with
  | nil =>
    obtain ⟨s', hreaches, allowed, hs'⟩ :=
      reaches_member (lull_gap layout level) (lull_gap layout 0) (.inr rfl) hs
    exact ⟨s', hreaches, allowed, by simpa using hs'⟩
  | cons other members ih =>
    rw [List.map_cons, Json.Writer.members] at hs
    simp only [List.cons_append, List.append_assoc] at hs
    obtain ⟨s₁, hreaches, allowed, hs₁⟩ :=
      reaches_member (lull_gap layout level) .none (.inl rfl) hs
    obtain ⟨d, tail, hstarts, hblank, hd⟩ := member_starts layout level other.1 _
    rw [hstarts] at hs₁
    obtain ⟨s₂, hreaches', hs₂⟩ := reaches_comma hblank hd hs₁
    rw [← hstarts] at hs₂
    obtain ⟨s₃, hreaches'', allowed', hs₃⟩ := ih hs₂
    refine ⟨s₃, hreaches.trans (hreaches'.trans hreaches''), allowed', ?_⟩
    have htokens : tokens ++ (memberTokens member ++ (other :: members).flatMap fun other =>
        .flowEntry :: memberTokens other).toArray =
      (tokens ++ (memberTokens member).toArray).push .flowEntry ++ (memberTokens other ++
        members.flatMap fun other => .flowEntry :: memberTokens other).toArray := by
      apply Array.ext'
      simp
    exact htokens ▸ hs₃

/-! ## The whole mapping -/

/-- A scanner outside of all collections. -/
def outside (place : Place) (fresh : Bool) (tokens : Array Token) (key : Option PossibleKey)
    (allowed bracketed : Bool) (adjacentAt : Option Nat) (settled : Nat) : Scanner where
  place := place
  fresh := fresh
  tokens := tokens
  propertyColumn := none
  indent := -1
  indents := []
  brackets := []
  keys := [key]
  keyAllowed := allowed
  pairs := []
  bracketed := bracketed
  adjacentAt := adjacentAt
  settled := settled

theorem start_eq {text : List Char} {c : Char} {more : List Char} (htext : text = c :: more)
    (hc : c ≠ '\ufeff') (hnul : '\x00' ∉ text) :
    Scanner.start text = outside ⟨text, 0, 0, 0⟩ true #[] none true false none 0 := by
  have htake : text.takeWhile (· ≠ '\x00') = text := by
    rw [List.takeWhile_eq_self_iff]
    intro b hb
    rw [decide_eq_true_eq]
    exact fun h => hnul (h ▸ hb)
  have hplace : Place.start text = ⟨text, 0, 0, 0⟩ := by
    subst htext
    simp only [Place.start]
    split
    · rename_i heq
      cases heq
      exact absurd rfl hc
    · rw [htake]
  rw [Scanner.start, hplace, outside]

/-- The bracket that opens the mapping. It may itself start a key, which no colon turns out to
follow. -/
theorem reaches_start (hnul : '\x00' ∉ '\x7b' :: d :: tail) (hblank : isBlank d = false)
    (hd : d ≠ '#') : ∃ s', Reaches (Scanner.start ('\x7b' :: d :: tail)) s' ∧
      Amid (some ⟨false, 0, 0, 0, 0⟩) #[.flowMappingStart] (d :: tail) true s' := by
  have htail : (Place.mk (d :: tail) 1 0 1).tail? = some ⟨d :: tail, 1, 0, 1⟩ :=
    Place.tail?_of_cons rfl hblank hd
  have hbetween : between? false false (-1) true true ⟨'\x7b' :: d :: tail, 0, 0, 0⟩ =
      some (⟨'\x7b' :: d :: tail, 0, 0, 0⟩, true, true) := by
    rw [between?]
    simp [isBlank, isBreak]
  have hopen : Leads (dispatch '\x7b' (d :: tail))
      (outside ⟨'\x7b' :: d :: tail, 0, 0, 0⟩ true #[] none true false none 0) ()
      (inMapping (some ⟨false, 0, 0, 0, 0⟩) ⟨d :: tail, 1, 0, 1⟩ false #[.flowMappingStart] none
        true none 0) := by
    refine leads_bind leads_get ?_
    refine leads_bind (leads_modify _) (leads_bind (leads_modify _) (leads_bind leads_get ?_))
    refine leads_bind (leads_modify _) (leads_bind (leads_modify _)
      (leads_bind (leads_ofOption htail) (leads_bind (leads_modify _) (leads_modify _))))
  have hskip : Leads skipBetween
      (outside ⟨'\x7b' :: d :: tail, 0, 0, 0⟩ true #[] none true false none 0) ()
      (outside ⟨'\x7b' :: d :: tail, 0, 0, 0⟩ true #[] none true false none 0) :=
    leads_bind leads_get (leads_bind (leads_ofOption hbetween) (leads_modify _))
  rw [start_eq rfl (by decide) hnul]
  refine ⟨inMapping (some ⟨false, 0, 0, 0, 0⟩) ⟨d :: tail, 1, 0, 1⟩ false #[.flowMappingStart] none
    true none 0, .cons ?_ ?_ (.refl _), _, _, _, _, rfl, rfl⟩
  · refine leads_bind (leads_modify _) (leads_bind hskip ?_)
    refine leads_bind (leads_bind leads_get (leads_pure ())) (leads_bind (leads_modify _)
      (leads_bind leads_get ?_))
    exact leads_bind hopen (leads_pure true)
  · simp [inMapping, outside]

section End

variable {bracketed : Bool}

theorem leads_dropKey (hkey : key.any (·.required) = false) :
    Leads dropKey (outside p fresh tokens key allowed bracketed adjacentAt settled) ()
      (outside p fresh tokens none allowed bracketed adjacentAt settled) := by
  have hdrop : Leads (modify (·.setKey none))
      (outside p fresh tokens key allowed bracketed adjacentAt settled) ()
      (outside p fresh tokens none allowed bracketed adjacentAt settled) := rfl
  refine leads_bind leads_get ?_
  rw [if_neg (by simpa [outside] using hkey)]
  exact hdrop

theorem leads_dropStaleKey_outside (hkey : key.any (·.required) = false) :
    ∃ key', key'.any (·.required) = false ∧ Leads dropStaleKey
      (outside p fresh tokens key allowed bracketed adjacentAt settled) ()
      (outside p fresh tokens key' allowed bracketed adjacentAt settled) := by
  by_cases h : (outside p fresh tokens key allowed bracketed adjacentAt settled).keys.head?.join.any
      (outside p fresh tokens key allowed bracketed adjacentAt settled).isStale
  · refine ⟨none, rfl, leads_bind leads_get ?_⟩
    rw [if_pos h]
    exact leads_dropKey hkey
  · refine ⟨key, hkey, leads_bind leads_get ?_⟩
    rw [if_neg h]
    exact leads_pure ()

theorem leads_skipBetween_end (hp : p.rest = []) :
    Leads skipBetween (outside p fresh tokens key allowed bracketed adjacentAt settled) ()
      (outside p fresh tokens key allowed bracketed adjacentAt settled) := by
  have hbetween : between? false false (-1) fresh allowed p = some (p, fresh, allowed) := by
    cases p
    cases hp
    rw [between?]
  exact leads_bind leads_get (leads_bind (leads_ofOption hbetween) (leads_modify _))

/-- Behind the mapping nothing is left, and the key that its bracket might have started is
dropped. -/
theorem leads_step_end (hp : p.rest = []) (hkey : key.any (·.required) = false) :
    ∃ s', Leads step (outside p fresh tokens key allowed bracketed adjacentAt settled) false s' ∧
      s'.tokens = tokens.push .streamEnd := by
  obtain ⟨settled', hsettle⟩ : ∃ settled', Leads settle
      (outside p fresh tokens key allowed bracketed adjacentAt settled) ()
      (outside p fresh tokens key allowed bracketed adjacentAt settled') := ⟨_, rfl⟩
  obtain ⟨key', hkey', hstale⟩ : ∃ key', key'.any (·.required) = false ∧ Leads dropStaleKey
      (outside p fresh tokens key allowed bracketed adjacentAt settled') ()
      (outside p fresh tokens key' allowed bracketed adjacentAt settled') :=
    leads_dropStaleKey_outside hkey
  have hend : Leads streamEnd
      (outside p fresh tokens key' allowed bracketed adjacentAt settled') ()
      (outside p fresh (tokens.push .streamEnd) none false bracketed adjacentAt settled') :=
    leads_bind leads_get (leads_bind (leads_dropKey hkey') (leads_bind (leads_modify _)
      (leads_bind (leads_modify _) (leads_modify _))))
  refine ⟨outside p fresh (tokens.push .streamEnd) none false bracketed adjacentAt settled', ?_,
    rfl⟩
  refine leads_bind hsettle (leads_bind (leads_skipBetween_end hp) (leads_bind hstale
    (leads_bind (leads_modify _) (leads_bind leads_get ?_))))
  cases p
  cases hp
  exact leads_bind hend (leads_pure false)

end End

/-- The bracket that closes the mapping, and the end of the text behind it. -/
theorem reaches_end {k : PossibleKey} (hkey : k.required = false)
    (hs : Amid (some k) tokens ['\x7d'] allowed s) :
    ∃ s', Reaches s s' ∧ ∃ s'', Leads step s' false s'' ∧
      s''.tokens = (tokens.push .flowMappingEnd).push .streamEnd := by
  obtain ⟨p, fresh, adjacentAt, settled, hp, rfl⟩ := hs
  refine reaches_of_dispatch (List.forall_mem_nil _) hp rfl rfl (by decide)
    fun q fresh settled hq _ => ?_
  have hbehind : (q.forward 1).rest = [] := by
    rw [Place.rest_forward, hq]
    rfl
  have hclose : Leads (dispatch '\x7d' [])
      (inMapping (some k) q fresh tokens none allowed adjacentAt settled) ()
      (outside (q.forward 1) false (tokens.push .flowMappingEnd) (some k) false true adjacentAt
        settled) := by
    refine leads_bind leads_get (leads_bind leads_get (leads_bind leads_get ?_))
    refine leads_bind (leads_modify _) (leads_bind (leads_modify _) (leads_bind leads_get ?_))
    exact leads_bind (leads_ofOption (Place.tail?_of_nil hbehind)) (leads_bind (leads_modify _)
      (leads_bind (leads_modify _) (leads_modify _)))
  refine ⟨_, hclose, ?_, _, .refl _, leads_step_end hbehind (by simpa using hkey)⟩
  simp [outside, hbehind]

end Scan

/-! ## Tokens of a whole text -/

theorem nul_not_mem_escapeChar (c : Char) : '\x00' ∉ Json.Writer.escapeChar c := by
  have hhex : ∀ n < 16, '\x00' ≠ hexDigit n := by decide
  unfold Json.Writer.escapeChar
  split
  · decide
  split
  · decide
  split
  · decide
  split
  · decide
  split
  · decide
  split
  · decide
  split
  · decide
  split
  · rename_i h
    simp [hhex (c.toNat / 16) (by omega), hhex (c.toNat % 16) (by omega)]
  · rename_i h
    rw [List.mem_singleton]
    rintro rfl
    exact h (by decide)

theorem nul_not_mem_string (s : String) : '\x00' ∉ Json.Writer.string (some s) := by
  simp [Json.Writer.string, nul_not_mem_escapeChar]

theorem nul_not_mem_gap (layout : Json.Layout) (level : Nat) :
    '\x00' ∉ Json.Writer.gap layout level := by
  cases layout <;> simp [Json.Writer.gap]

theorem nul_not_mem_colon (layout : Json.Layout) : '\x00' ∉ Json.Writer.colon layout := by
  cases layout <;> decide

theorem nul_not_mem_leaf (layout : Json.Layout) (level : Nat) (leaf : Leaf) :
    '\x00' ∉ Json.Writer.value layout level leaf.toJson := by
  cases leaf with
  | text s => exact nul_not_mem_string s
  | nat n =>
    rw [Leaf.value_nat]
    intro h
    have hdigit := List.all_eq_true.1 (Json.Reader.all_digits n) _ h
    exact absurd hdigit (by decide)

theorem nul_not_mem_members (layout : Json.Layout) (level : Nat) (members : List (String × Leaf)) :
    '\x00' ∉ Json.Writer.members layout level
      (members.map fun member => (some member.1, member.2.toJson)) := by
  induction members with
  | nil => simp [Json.Writer.members]
  | cons member members ih =>
    simp [Json.Writer.members, nul_not_mem_gap, nul_not_mem_string, nul_not_mem_colon,
      nul_not_mem_leaf, ih]

/-- Members as those of a JSON object. -/
def jsonMembers (members : List (String × Leaf)) : List (String × Json) :=
  members.map fun member => (member.1, member.2.toJson)

/-- The tokens of a text that is a JSON object of texts and numbers, on one line or on many. -/
theorem tokens_record (layout : Json.Layout) (member : String × Leaf)
    (members : List (String × Leaf)) :
    tokens (Json.record (jsonMembers (member :: members)) |>.chars layout) =
      .flowMappingStart :: (memberTokens member ++
        (members.flatMap (fun other => .flowEntry :: memberTokens other) ++
          [.flowMappingEnd, .streamEnd])) := by
  have htext : (Json.record (jsonMembers (member :: members)) |>.chars layout) =
      '\x7b' :: (Json.Writer.gap layout 1 ++ (Json.Writer.string (some member.1) ++
        (Json.Writer.colon layout ++ (Json.Writer.value layout 1 member.2.toJson ++
          (Json.Writer.members layout 1 (members.map fun other => (some other.1, other.2.toJson)) ++
            (Json.Writer.gap layout 0 ++ ['\x7d'])))))) := by
    simp [Json.chars, Json.record, jsonMembers, Json.Writer.value, Function.comp_def]
  have hnul : '\x00' ∉ (Json.record (jsonMembers (member :: members)) |>.chars layout) := by
    simp [htext, nul_not_mem_gap, nul_not_mem_string, nul_not_mem_colon, nul_not_mem_leaf,
      nul_not_mem_members]
  obtain ⟨d, tail, hstarts, hblank, hd⟩ := Scan.member_starts layout 1 member.1
    (Json.Writer.colon layout ++ (Json.Writer.value layout 1 member.2.toJson ++
      (Json.Writer.members layout 1 (members.map fun other => (some other.1, other.2.toJson)) ++
        (Json.Writer.gap layout 0 ++ ['\x7d']))))
  rw [htext, hstarts] at hnul ⊢
  obtain ⟨s₁, hopen, hs₁⟩ := Scan.reaches_start hnul hblank hd
  rw [← hstarts] at hs₁
  obtain ⟨s₂, hmembers, allowed, hs₂⟩ := Scan.reaches_members hs₁
  obtain ⟨s₃, hclose, s₄, hend, htokens⟩ := Scan.reaches_end rfl hs₂
  obtain ⟨n, hn, hsteps⟩ := (hopen.trans (hmembers.trans hclose)).steps
  rw [Scan.start_eq rfl (by decide) hnul] at hsteps hn
  have hcount : ('\x7b' :: d :: tail).length + 2 =
      n + (('\x7b' :: d :: tail).length + 1 - n + 1) := by
    simp only [Scan.outside] at hn
    omega
  have hrun : (Scan.steps (('\x7b' :: d :: tail).length + 2)).run
      (Scanner.start ('\x7b' :: d :: tail)) = (.ok (), s₄) := by
    rw [Scan.start_eq rfl (by decide) hnul, hcount, hsteps, Scan.steps, Scan.run_bind hend]
    rfl
  rw [tokens, hrun]
  simp [htokens]

end SchemaCatalog.Yaml
