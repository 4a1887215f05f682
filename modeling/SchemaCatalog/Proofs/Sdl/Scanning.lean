import Mathlib.Data.List.TakeWhile
import SchemaCatalog.Sdl.Cursor

/-!
# SchemaCatalog.Proofs.Sdl.Scanning

What a list of lexemes says about the text it was cut from.

* `Token.Regular`: the kind of a token and its text belong together; every token of a scan is
  regular (`regular_of_mem`).
* `takeWhile_offset_lt`: the lexemes that start before the end of one of them are those up to it,
  since lexemes stand one behind the other.
* `significant_scanFrom`: when the text of some of the first lexemes is scanned on its own, the
  tokens that count are the same again. This holds of lexemes whose extent hangs on nothing
  behind them, names, punctuators, blanks and comments.
-/

namespace SchemaCatalog.Sdl

/-- Names start with a letter or an underscore and go on with those and digits. -/
def isName : List Char → Bool
  | [] => false
  | c :: rest => isNameStart c && rest.all isNamePart

/-- A token whose text is as its kind says. -/
structure Token.Regular (t : Token) : Prop where
  name : t.kind = .name → isName t.text.toList = true
  punctuator : ∀ c, t.kind = .punctuator c → t.text.toList = [c]
  endOfInput : t.kind = .endOfInput ↔ t.text = ""

/-- The text of a token that counts. -/
def Lexeme.significant : Lexeme → List Char
  | .token t => if t.kind.isIgnored then [] else t.text.toList
  | .invalid _ _ => []

/-- A text without the tokens that do not count. -/
def withoutIgnored (text : String) : String :=
  String.ofList ((Lexeme.scan text).flatMap Lexeme.significant)

/-! ## Kinds and measures -/

/-- Kinds of tokens whose extent hangs on their own characters alone. -/
def Kind.isPlain : Kind → Bool
  | .punctuator _ | .name | .blank | .comment => true
  | _ => false

namespace Number

theorem kind_floatEnd {count : Nat} {cs : List Char} {kind : Kind} {n : Nat}
    (h : floatEnd count cs = (.ok kind, n)) : kind = .float := by
  unfold floatEnd at h
  split at h
  · split at h
    · simp [unexpected] at h
    · simp_all
  · simp_all

theorem kind_exponentDigits {count : Nat} {cs : List Char} {kind : Kind} {n : Nat}
    (h : exponentDigits count cs = (.ok kind, n)) : kind = .float := by
  unfold exponentDigits at h
  split at h
  · simp [endOfFloat] at h
  · split at h
    · exact kind_floatEnd h
    · simp [unexpected] at h

theorem kind_exponent {count : Nat} {cs : List Char} {kind : Kind} {n : Nat}
    (h : exponent count cs = (.ok kind, n)) : kind = .float := by
  unfold exponent at h
  split at h
  · simp [endOfFloat] at h
  · split at h
    · exact kind_exponentDigits h
    · split at h
      · exact kind_floatEnd h
      · simp [unexpected] at h

theorem kind_fractionEnd {count : Nat} {cs : List Char} {kind : Kind} {n : Nat}
    (h : fractionEnd count cs = (.ok kind, n)) : kind = .float := by
  unfold fractionEnd at h
  split at h
  · split at h
    · exact kind_exponent h
    · exact kind_floatEnd h
  · exact kind_floatEnd h

theorem kind_fraction {count : Nat} {cs : List Char} {kind : Kind} {n : Nat}
    (h : fraction count cs = (.ok kind, n)) : kind = .float := by
  unfold fraction at h
  split at h
  · simp [endOfFloat] at h
  · split at h
    · exact kind_fractionEnd h
    · simp [unexpected] at h

theorem kind_integerEnd {count : Nat} {cs : List Char} {kind : Kind} {n : Nat}
    (h : integerEnd count cs = (.ok kind, n)) : kind = .int ∨ kind = .float := by
  unfold integerEnd at h
  split at h
  · split at h
    · exact .inr (kind_fraction h)
    · split at h
      · exact .inr (kind_exponent h)
      · split at h
        · simp [unexpected] at h
        · left; simp_all
  · left; simp_all

theorem kind_unsigned {count : Nat} {cs : List Char} {kind : Kind} {n : Nat}
    (h : unsigned count cs = (.ok kind, n)) : kind = .int ∨ kind = .float := by
  unfold unsigned at h
  split at h
  · split at h
    · simp at h
    · exact kind_integerEnd h
  · exact kind_integerEnd h

end Number

theorem kind_measureNumber {c : Char} {rest : List Char} {kind : Kind} {n : Nat}
    (h : measureNumber c rest = (.ok kind, n)) : kind = .int ∨ kind = .float := by
  unfold measureNumber at h
  split at h
  · split at h
    · simp at h
    · split at h
      · exact Number.kind_unsigned h
      · simp [Number.unexpected] at h
  · exact Number.kind_unsigned h

theorem kind_measureSpread {rest : List Char} {kind : Kind} {n : Nat}
    (h : measureSpread rest = (.ok kind, n)) : kind = .spread := by
  unfold measureSpread at h
  split at h <;> simp_all

/-- What a successful measure of each kind says about the characters. -/
theorem measure_cases {c : Char} {rest : List Char} {kind : Kind} {n : Nat}
    (h : measure c rest = (.ok kind, n)) :
    (isPunctuator c = true ∧ kind = .punctuator c ∧ n = 1) ∨
    (isPunctuator c = false ∧ isNameStart c = true ∧ kind = .name ∧
      n = (rest.takeWhile isNamePart).length + 1) ∨
    (isPunctuator c = false ∧ isNameStart c = false ∧ isBlank c = true ∧ kind = .blank ∧
      n = (rest.takeWhile isBlank).length + 1) ∨
    (isPunctuator c = false ∧ isNameStart c = false ∧ isBlank c = false ∧ c = '#' ∧
      kind = .comment ∧ n = (rest.takeWhile fun d => !isLineEnd d).length + 1) ∨
    (kind.isPlain = false ∧ kind ≠ .endOfInput) := by
  unfold measure at h
  split at h
  · rename_i hp
    left; simp_all
  split at h
  · rename_i hp hs
    right; left; simp_all
  split at h
  · rename_i hp hs hb
    right; right; left; simp_all
  split at h
  · rename_i hp hs hb hc
    right; right; right; left; simp_all
  right; right; right; right
  split at h
  · simp only [Prod.mk.injEq] at h
    cases hm : (StringLiteral.measure rest).1 with
    | ok a => rw [hm] at h; cases h.1; exact ⟨rfl, by simp⟩
    | error e => rw [hm] at h; cases h.1
  split at h
  · rw [kind_measureSpread h]; exact ⟨rfl, by simp⟩
  split at h
  · rcases kind_measureNumber h with rfl | rfl <;> exact ⟨rfl, by simp⟩
  · simp at h

theorem takeWhile_eq_of_prefix {p : Char → Bool} {q r : List Char} (hq : q <+: r)
    (hlen : (r.takeWhile p).length ≤ q.length) : q.takeWhile p = r.takeWhile p := by
  obtain ⟨s, rfl⟩ := hq
  rw [List.takeWhile_append] at hlen ⊢
  split
  · rename_i hall
    rw [if_pos hall, List.length_append] at hlen
    have hs : s.takeWhile p = [] := List.length_eq_zero_iff.1 (by omega)
    rw [hs, List.append_nil]
    exact (List.takeWhile_prefix p).eq_of_length hall
  · rfl

theorem measure_le_length {c : Char} {rest : List Char} {kind : Kind} {n : Nat}
    (h : measure c rest = (.ok kind, n)) (plain : kind.isPlain = true) : n - 1 ≤ rest.length := by
  have hle (p : Char → Bool) : (rest.takeWhile p).length ≤ rest.length :=
    (List.takeWhile_prefix p).length_le
  rcases measure_cases h with ⟨_, _, rfl⟩ | ⟨_, _, _, rfl⟩ | ⟨_, _, _, _, rfl⟩ |
    ⟨_, _, _, _, _, rfl⟩ | ⟨hk, _⟩
  · simp
  · exact hle isNamePart
  · exact hle isBlank
  · exact hle fun d => !isLineEnd d
  · rw [hk] at plain; cases plain

/-- A plain lexeme is measured the same when the text ends anywhere behind it. -/
theorem measure_prefix {c : Char} {q r : List Char} {kind : Kind} {n : Nat}
    (h : measure c r = (.ok kind, n)) (plain : kind.isPlain = true) (hq : q <+: r)
    (hlen : n - 1 ≤ q.length) : measure c q = (.ok kind, n) := by
  rcases measure_cases h with ⟨hp, rfl, rfl⟩ | ⟨hp, hs, rfl, rfl⟩ | ⟨hp, hs, hb, rfl, rfl⟩ |
    ⟨hp, hs, hb, rfl, rfl, rfl⟩ | ⟨hk, _⟩
  · simp [measure, hp]
  · rw [← takeWhile_eq_of_prefix hq (by omega)]
    simp [measure, hp, hs]
  · rw [← takeWhile_eq_of_prefix hq (by omega)]
    simp [measure, hp, hs, hb]
  · rw [← takeWhile_eq_of_prefix hq (by omega)]
    simp [measure, hp, hs, hb]
  · rw [hk] at plain; cases plain

/-! ## Lists of lexemes -/

namespace Lexeme

theorem scanFrom_ne_nil (offset : Nat) (cs : List Char) : scanFrom offset cs ≠ [] := by
  cases cs with
  | nil => simp [scanFrom_nil]
  | cons c rest => simp [scanFrom_cons]

@[simp] theorem offset_make (outcome : Except String Kind) (offset : Nat) (text : String) :
    (make outcome offset text).offset = offset := by
  cases outcome <;> rfl

/-- The first lexeme of a text, and what is scanned behind it. -/
theorem scanFrom_eq_cons {offset : Nat} {cs : List Char} {l : Lexeme} {ls : List Lexeme}
    (h : scanFrom offset cs = l :: ls) :
    (cs = [] ∧ l = .token ⟨.endOfInput, "", offset⟩ ∧ ls = []) ∨
    ∃ c r1 r2 outcome n, cs = c :: (r1 ++ r2) ∧ measure c (r1 ++ r2) = (outcome, n) ∧
      r1 = (r1 ++ r2).take (n - 1) ∧ l = make outcome offset (String.ofList (c :: r1)) ∧
      ls = scanFrom (offset + (String.ofList (c :: r1)).utf8ByteSize) r2 := by
  cases cs with
  | nil =>
    rw [scanFrom_nil] at h
    cases h
    exact .inl ⟨rfl, rfl, rfl⟩
  | cons c rest =>
    rw [scanFrom_cons] at h
    obtain ⟨rfl, rfl⟩ := List.cons.inj h
    refine .inr ⟨c, rest.take ((measure c rest).2 - 1), rest.drop ((measure c rest).2 - 1),
      (measure c rest).1, (measure c rest).2, ?_⟩
    rw [List.take_append_drop]
    exact ⟨rfl, rfl, rfl, rfl, rfl⟩

theorem exists_scanFrom_of_suffix {offset : Nat} {cs : List Char} {ls : List Lexeme}
    (h : ls <:+ scanFrom offset cs) (hne : ls ≠ []) :
    ∃ offset' cs', ls = scanFrom offset' cs' ∧ cs' <:+ cs := by
  fun_induction scanFrom offset cs with
  | case1 offset =>
    rcases List.suffix_cons_iff.1 h with rfl | h
    · exact ⟨offset, [], (scanFrom_nil offset).symm, List.suffix_refl _⟩
    · exact absurd (List.suffix_nil.1 h) hne
  | case2 offset c rest outcome count hm slice ih =>
    rcases List.suffix_cons_iff.1 h with rfl | h
    · refine ⟨offset, c :: rest, ?_, List.suffix_refl _⟩
      rw [scanFrom_cons, hm]
    · obtain ⟨offset', cs', hls, hcs⟩ := ih h
      exact ⟨offset', cs', hls, hcs.trans ((List.drop_suffix _ _).trans (List.suffix_cons _ _))⟩

/-! ### Tokens are regular -/

theorem take_length_takeWhile (p : Char → Bool) (cs : List Char) :
    cs.take (cs.takeWhile p).length = cs.takeWhile p :=
  (List.prefix_iff_eq_take.1 (List.takeWhile_prefix p)).symm

theorem regular_token {c : Char} {rest : List Char} {kind : Kind} {n : Nat} (offset : Nat)
    (h : measure c rest = (.ok kind, n)) :
    Token.Regular ⟨kind, String.ofList (c :: rest.take (n - 1)), offset⟩ := by
  rcases measure_cases h with ⟨_, rfl, rfl⟩ | ⟨_, hs, rfl, rfl⟩ | ⟨_, _, _, rfl, _⟩ |
    ⟨_, _, _, _, rfl, _⟩ | ⟨hk, he⟩
  · refine ⟨by simp, ?_, by simp⟩
    intro d hd
    cases hd
    simp
  · refine ⟨?_, by simp, by simp⟩
    intro _
    rw [Nat.add_sub_cancel, take_length_takeWhile, String.toList_ofList]
    simp [isName, hs, List.all_takeWhile]
  · exact ⟨by simp, by simp, by simp⟩
  · exact ⟨by simp, by simp, by simp⟩
  · refine ⟨?_, ?_, by simp [he]⟩
    · rintro rfl
      cases hk
    · rintro d rfl
      cases hk

theorem regular_of_mem {offset : Nat} {cs : List Char} {t : Token}
    (h : .token t ∈ scanFrom offset cs) : t.Regular := by
  fun_induction scanFrom offset cs with
  | case1 offset =>
    cases List.mem_singleton.1 h
    exact ⟨by simp, by simp, by simp⟩
  | case2 offset c rest outcome count hm slice ih =>
    rcases List.mem_cons.1 h with h | h
    · cases outcome with
      | error message => simp [make] at h
      | ok kind =>
        cases h
        exact regular_token offset hm
    · exact ih h

/-- A scan ends with the end of the text. -/
theorem exists_endOfInput_mem (offset : Nat) (cs : List Char) :
    ∃ t, .token t ∈ scanFrom offset cs ∧ t.kind = .endOfInput := by
  fun_induction scanFrom offset cs with
  | case1 offset => exact ⟨_, List.mem_cons_self, rfl⟩
  | case2 offset c rest outcome count hm slice ih =>
    obtain ⟨t, ht, hk⟩ := ih
    exact ⟨t, List.mem_cons_of_mem _ ht, hk⟩

/-! ### Lexemes stand one behind the other -/

theorem utf8ByteSize_ofList_cons_pos (c : Char) (cs : List Char) :
    0 < (String.ofList (c :: cs)).utf8ByteSize := by
  have := Char.utf8Size_pos c
  simp
  omega

theorem le_offset_of_mem {offset : Nat} {cs : List Char} {l : Lexeme}
    (h : l ∈ scanFrom offset cs) : offset ≤ l.offset := by
  fun_induction scanFrom offset cs with
  | case1 offset =>
    cases List.mem_singleton.1 h
    exact Nat.le_refl _
  | case2 offset c rest outcome count hm slice ih =>
    rcases List.mem_cons.1 h with rfl | h
    · simp
    · have := ih h
      omega

theorem takeWhile_offset_lt_of_le {offset stop : Nat} (h : stop ≤ offset) (cs : List Char) :
    (scanFrom offset cs).takeWhile (·.offset < stop) = [] := by
  cases hs : scanFrom offset cs with
  | nil => rfl
  | cons l ls =>
    have hmem : l ∈ scanFrom offset cs := by
      rw [hs]
      exact List.mem_cons_self
    have hl := le_offset_of_mem hmem
    rw [List.takeWhile_cons_of_neg]
    simp only [decide_eq_true_eq]
    omega

/-- The lexemes that start before the end of a token are those up to and with it. -/
theorem takeWhile_offset_lt {used rest : List Lexeme} {t : Token} (ht : t.kind ≠ .endOfInput) :
    ∀ {offset : Nat} {cs : List Char}, scanFrom offset cs = used ++ .token t :: rest →
      (used ++ .token t :: rest).takeWhile (·.offset < t.stop) = used ++ [.token t] := by
  induction used with
  | nil =>
    intro offset cs h
    rcases scanFrom_eq_cons h with ⟨_, hl, _⟩ | ⟨c, r1, r2, outcome, n, _, _, _, hl, hls⟩
    · cases hl
      exact absurd rfl ht
    · cases outcome with
      | error message => simp [make] at hl
      | ok kind =>
        cases hl
        have hpos := utf8ByteSize_ofList_cons_pos c r1
        rw [List.nil_append, List.takeWhile_cons_of_pos, hls, takeWhile_offset_lt_of_le]
        · rfl
        · exact Nat.le_refl _
        · simpa [Lexeme.offset, Token.stop] using hpos
  | cons l us ih =>
    intro offset cs h
    rcases scanFrom_eq_cons h with ⟨_, _, hnil⟩ | ⟨c, r1, r2, outcome, n, _, _, _, hl, hls⟩
    · simp at hnil
    · have hmem : Lexeme.token t ∈ scanFrom
          (offset + (String.ofList (c :: r1)).utf8ByteSize) r2 := by
        rw [← hls]
        simp
      have hle : offset + (String.ofList (c :: r1)).utf8ByteSize ≤ t.offset := le_offset_of_mem hmem
      have hpos := utf8ByteSize_ofList_cons_pos c r1
      have hlt : l.offset < t.stop := by
        rw [hl, offset_make, Token.stop]
        omega
      rw [List.cons_append, List.takeWhile_cons_of_pos (by simpa using hlt), ih hls.symm,
        List.cons_append]

/-! ### Scanning a stretch of a text on its own -/

/-- A token that ends where its own characters say. -/
def IsPlain : Lexeme → Prop
  | .token t => t.kind.isPlain = true
  | .invalid _ _ => False

theorem prefix_of_scanFrom {offset : Nat} {cs : List Char} {used rest : List Lexeme}
    (h : scanFrom offset cs = used ++ rest) : used.flatMap (·.text.toList) <+: cs := by
  rw [← flatMap_text_scanFrom offset cs, h, List.flatMap_append]
  exact List.prefix_append _ _

theorem significant_scanFrom {used rest : List Lexeme} (plain : ∀ l ∈ used, l.IsPlain) :
    ∀ {offset : Nat} {cs : List Char}, scanFrom offset cs = used ++ rest →
      ∀ offset', (scanFrom offset' (used.flatMap (·.text.toList))).flatMap significant =
        used.flatMap significant := by
  induction used with
  | nil =>
    intro offset cs _ offset'
    rw [List.flatMap_nil, scanFrom_nil]
    simp [significant]
  | cons l us ih =>
    intro offset cs h offset'
    have hl := plain l List.mem_cons_self
    rcases scanFrom_eq_cons h with ⟨_, rfl, _⟩ | ⟨c, r1, r2, outcome, n, rfl, hm, hr1, rfl, hls⟩
    · cases hl
    · cases outcome with
      | error message => exact hl.elim
      | ok kind =>
        have hpre : us.flatMap (·.text.toList) <+: r2 := prefix_of_scanFrom hls.symm
        have hlen : n - 1 = r1.length := by
          have := measure_le_length hm hl
          rw [hr1, List.length_take]
          omega
        have hm' := measure_prefix hm hl ((List.prefix_append_right_inj r1).2 hpre)
          (by rw [List.length_append]; omega)
        have hus := ih (fun l' hl' => plain l' (List.mem_cons_of_mem _ hl')) hls.symm
        rw [List.flatMap_cons, List.flatMap_cons, text_make, String.toList_ofList,
          List.cons_append, scanFrom_cons, hm', hlen, List.take_left, List.drop_left,
          List.flatMap_cons, hus]
        rfl

end Lexeme

end SchemaCatalog.Sdl
