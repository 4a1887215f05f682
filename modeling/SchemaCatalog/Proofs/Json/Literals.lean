import Mathlib.Data.List.Forall2
import SchemaCatalog.Json.Reader
import SchemaCatalog.Json.Writer

/-!
# SchemaCatalog.Proofs.Json.Literals

Strings and whole numbers are read as they were written.

Every character is written as one piece of a literal (`pieces_escapeChar`), so a string is read by
induction on its characters, whatever they are. A number is read up to the first character that
cannot go on with it, which is why `Closes` is asked of what follows.
-/

namespace SchemaCatalog.Json

open Text

namespace Reader

/-! ## Strings -/

/-- A piece that stands for one character, written as it is or by its number. -/
inductive Means : Piece → Char → Prop
  | char (c : Char) : Means (.char c) c
  | unit (c : Char) (h : c.toNat < 0x20) : Means (.unit c.toNat) c

theorem joined_unit {n : Nat} (h : n < 0x20) (rest : List Piece) :
    joined (.unit n :: rest) = (joined rest).map (Char.ofNat n :: ·) := by
  have hlead : isLeadSurrogate n = false := by
    simp only [isLeadSurrogate, Bool.and_eq_false_iff, decide_eq_false_iff_not]
    omega
  have htrail : isTrailSurrogate n = false := by
    simp only [isTrailSurrogate, Bool.and_eq_false_iff, decide_eq_false_iff_not]
    omega
  cases rest with
  | nil => simp [joined, hlead, htrail]
  | cons p rest =>
    cases p with
    | char c => simp [joined, hlead, htrail]
    | unit m => rw [joined, if_neg (by simp [hlead]), if_neg (by simp [htrail])]

theorem joined_of_means {ps : List Piece} {cs : List Char} (h : List.Forall₂ Means ps cs) :
    joined ps = some cs := by
  induction h with
  | nil => rfl
  | cons hp _ ih =>
    cases hp with
    | char c => rw [joined, ih]; rfl
    | unit c hc => rw [joined_unit hc, ih, Option.map_some, Char.ofNat_toNat]

theorem pieces_short {letter meant : Char} (h : shortEscape? letter = some meant)
    (hu : letter ≠ 'u') (rest : List Char) : pieces ('\\' :: letter :: rest) =
      (pieces rest).map fun r => (.char meant :: r.1, r.2) := by
  rw [pieces, h]
  · cases pieces rest with
    | none => rfl
    | some r => rfl
  · rintro a b c d rest' rfl
    exact absurd rfl hu

theorem pieces_plain {c : Char} (hquote : c ≠ '"') (hback : c ≠ '\\') (h : ¬ c.toNat < 0x20)
    (rest : List Char) :
    pieces (c :: rest) = (pieces rest).map fun r => (.char c :: r.1, r.2) := by
  rw [pieces, if_neg (by simp [h, hback])]
  · cases pieces rest with
    | none => rfl
    | some r => rfl
  · exact hquote
  · rintro a b c' d rest' rfl
    exact absurd rfl hback
  · rintro letter rest' rfl
    exact absurd rfl hback

theorem hexUnit?_control {n : Nat} (h : n < 0x20) :
    hexUnit? '0' '0' (hexDigit (n / 16)) (hexDigit (n % 16)) = some n := by
  have hzero : hexDigit? '0' = some 0 := by decide
  rw [hexUnit?, hzero, hexDigit?_hexDigit _ (by omega), hexDigit?_hexDigit _ (by omega)]
  simp only [Option.bind_eq_bind, Option.bind_some, Option.pure_def, Option.some.injEq]
  omega

theorem pieces_control {n : Nat} (h : n < 0x20) (rest : List Char) :
    pieces ('\\' :: 'u' :: '0' :: '0' :: hexDigit (n / 16) :: hexDigit (n % 16) :: rest) =
      (pieces rest).map fun r => (.unit n :: r.1, r.2) := by
  rw [pieces, hexUnit?_control h]
  cases pieces rest with
  | none => rfl
  | some r => rfl

/-- A character is read as one piece that stands for it. -/
theorem pieces_escapeChar (c : Char) : ∃ p, Means p c ∧ ∀ rest,
    pieces (Writer.escapeChar c ++ rest) = (pieces rest).map fun r => (p :: r.1, r.2) := by
  unfold Writer.escapeChar
  split
  · exact ⟨_, ‹c = _› ▸ .char c, pieces_short rfl (by decide)⟩
  split
  · exact ⟨_, ‹c = _› ▸ .char c, pieces_short rfl (by decide)⟩
  split
  · exact ⟨_, ‹c = _› ▸ .char c, pieces_short rfl (by decide)⟩
  split
  · exact ⟨_, ‹c = _› ▸ .char c, pieces_short rfl (by decide)⟩
  split
  · exact ⟨_, ‹c = _› ▸ .char c, pieces_short rfl (by decide)⟩
  split
  · exact ⟨_, ‹c = _› ▸ .char c, pieces_short rfl (by decide)⟩
  split
  · exact ⟨_, ‹c = _› ▸ .char c, pieces_short rfl (by decide)⟩
  split
  · rename_i h
    exact ⟨_, .unit c h, pieces_control h⟩
  · rename_i hquote hback _ _ _ _ _ h
    exact ⟨_, .char c, pieces_plain hquote hback h⟩

theorem pieces_escape (cs tail : List Char) : ∃ ps, List.Forall₂ Means ps cs ∧
    pieces (cs.flatMap Writer.escapeChar ++ '"' :: tail) = some (ps, tail) := by
  induction cs with
  | nil => exact ⟨[], .nil, rfl⟩
  | cons c cs ih =>
    obtain ⟨ps, hps, hread⟩ := ih
    obtain ⟨p, hp, hc⟩ := pieces_escapeChar c
    refine ⟨p :: ps, .cons hp hps, ?_⟩
    rw [List.flatMap_cons, List.append_assoc, hc, hread]
    rfl

/-- A written string is read behind its opening quote. -/
theorem string_written (s : Option String) (tail : List Char) :
    ∃ body, Writer.string s = '"' :: body ∧ string (body ++ tail) = some (s, tail) := by
  cases s with
  | none =>
    refine ⟨['\\', 'u', 'd', '8', '0', '0', '"'], rfl, ?_⟩
    have hunit : hexUnit? 'd' '8' '0' '0' = some 0xD800 := by decide
    simp [string, pieces, hunit, joined, isLeadSurrogate]
  | some s =>
    obtain ⟨ps, hps, hread⟩ := pieces_escape s.toList tail
    refine ⟨s.toList.flatMap Writer.escapeChar ++ ['"'], rfl, ?_⟩
    rw [List.append_assoc, List.singleton_append, string, hread]
    simp only [Option.map_some, joined_of_means hps, String.ofList_toList]

/-! ## Numbers -/

/-- What follows cannot go on with a number. -/
def Closes (cs : List Char) : Prop :=
  ∀ c rest, cs = c :: rest → isDigit c = false ∧ c ≠ '.' ∧ c ≠ 'e' ∧ c ≠ 'E'

theorem closes_nil : Closes [] := fun _ _ h => by cases h

theorem closes_cons {c : Char} {rest : List Char}
    (h : isDigit c = false ∧ c ≠ '.' ∧ c ≠ 'e' ∧ c ≠ 'E') : Closes (c :: rest) := by
  intro c' rest' heq
  cases heq
  exact h

theorem isDigit_digit : ∀ n < 10, isDigit (Char.ofNat ('0'.toNat + n)) = true := by decide

theorem toNat_digit : ∀ n < 10, (Char.ofNat ('0'.toNat + n)).toNat - '0'.toNat = n := by decide

theorem digit_ne_zero : ∀ n < 10, n ≠ 0 → Char.ofNat ('0'.toNat + n) ≠ '0' := by decide

theorem all_digits (n : Nat) : (Writer.digits n).all isDigit = true := by
  fun_induction Writer.digits n with
  | case1 n h => simpa using isDigit_digit n h
  | case2 n h ih =>
    rw [List.all_append, ih]
    simpa using isDigit_digit (n % 10) (Nat.mod_lt _ (by decide))

theorem value_digits (n : Nat) :
    (Writer.digits n).foldl (fun n c => n * 10 + (c.toNat - '0'.toNat)) 0 = n := by
  fun_induction Writer.digits n with
  | case1 n h =>
    rw [List.foldl_cons, List.foldl_nil, toNat_digit n h]
    omega
  | case2 n h ih =>
    rw [List.foldl_append, ih, List.foldl_cons, List.foldl_nil,
      toNat_digit (n % 10) (Nat.mod_lt _ (by decide))]
    omega

/-- No leading zeros. -/
theorem digits_cases (n : Nat) : (n = 0 ∧ Writer.digits n = ['0']) ∨
    ∃ d rest, Writer.digits n = d :: rest ∧ d ≠ '0' ∧ isDigit d = true := by
  fun_induction Writer.digits n with
  | case1 n h =>
    by_cases hn : n = 0
    · rw [hn]
      exact .inl ⟨rfl, rfl⟩
    · exact .inr ⟨_, [], rfl, digit_ne_zero n h hn, isDigit_digit n h⟩
  | case2 n h ih =>
    rcases ih with ⟨hzero, _⟩ | ⟨d, rest, hd, hne, hdigit⟩
    · omega
    · exact .inr ⟨d, _, by rw [hd, List.cons_append], hne, hdigit⟩

theorem Closes.takeWhile {tail : List Char} (h : Closes tail) : tail.takeWhile isDigit = [] := by
  cases tail with
  | nil => rfl
  | cons c rest => rw [List.takeWhile_cons_of_neg (by simp [(h c rest rfl).1])]

theorem digitRun_digits (n : Nat) {tail : List Char} (htail : Closes tail) :
    digitRun (Writer.digits n ++ tail) = some (Writer.digits n, tail) := by
  have hall : ∀ c ∈ Writer.digits n, isDigit c = true := List.all_eq_true.1 (all_digits n)
  have htake : (Writer.digits n ++ tail).takeWhile isDigit = Writer.digits n := by
    rw [List.takeWhile_append_of_pos hall, htail.takeWhile, List.append_nil]
  have hdrop : (Writer.digits n ++ tail).dropWhile isDigit = tail := by
    have hsplit := List.takeWhile_append_dropWhile (p := isDigit) (l := Writer.digits n ++ tail)
    rw [htake] at hsplit
    exact List.append_cancel_left hsplit
  rw [digitRun, htake, hdrop]
  rcases digits_cases n with ⟨_, h⟩ | ⟨d, rest, h, _⟩ <;> rw [h]

theorem whole_written (n : Nat) {tail : List Char} (htail : Closes tail) :
    whole (Writer.digits n ++ tail) = some (n, tail) := by
  rcases digits_cases n with ⟨rfl, hn⟩ | ⟨d, rest, hn, hne, _⟩
  · rw [hn]
    rfl
  · have hrun := digitRun_digits n htail
    rw [hn, List.cons_append] at hrun ⊢
    unfold whole
    split
    · rename_i heq
      cases heq
      exact absurd rfl hne
    · rw [hrun, Option.map_some, ← hn]
      dsimp only
      rw [value_digits]

theorem fraction_of_closes {tail : List Char} (htail : Closes tail) :
    fraction tail = some ([], tail) := by
  unfold fraction
  split
  · exact absurd rfl (htail _ _ rfl).2.1
  · rfl

theorem exponent_of_closes {tail : List Char} (htail : Closes tail) :
    exponent tail = some ([], tail) := by
  cases tail with
  | nil => rfl
  | cons c rest =>
    have hc := htail c rest rfl
    unfold exponent
    exact if_neg (by simp [hc.2.2])

theorem unsigned_written (negative : Bool) (n : Nat) {tail : List Char} (htail : Closes tail) :
    unsigned negative (Writer.digits n ++ tail) = some (⟨negative, n, []⟩, tail) := by
  rw [unsigned, whole_written n htail]
  simp [fraction_of_closes htail, exponent_of_closes htail]

/-- A written whole number is read, up to what follows it. -/
theorem numeral_written (negative : Bool) (n : Nat) {tail : List Char} (htail : Closes tail) :
    numeral (Writer.numeral ⟨negative, n, []⟩ ++ tail) = some (⟨negative, n, []⟩, tail) := by
  rw [Writer.numeral, List.append_nil]
  cases negative with
  | true => exact unsigned_written true n htail
  | false =>
    have hread := unsigned_written false n htail
    simp only [Bool.false_eq_true, if_false, List.nil_append]
    unfold numeral
    split
    · rename_i rest heq
      rcases digits_cases n with ⟨_, hn⟩ | ⟨d, more, hn, _, hdigit⟩
      · rw [hn] at heq
        cases heq
      · rw [hn] at heq
        cases heq
        exact absurd hdigit (by decide)
    · exact hread

end Reader

end SchemaCatalog.Json
