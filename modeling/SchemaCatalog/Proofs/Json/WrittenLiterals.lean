import Mathlib.Data.List.TakeWhile
import SchemaCatalog.Proofs.Json.Grammar
import SchemaCatalog.Proofs.Json.RoundTrip

/-!
# SchemaCatalog.Proofs.Json.WrittenLiterals

Strings and numbers are read as the grammar has them.

A string shows its end, so it is read whatever follows it. A number does not, and so the lemmas
about its parts ask of what follows that it cannot go on with them.
-/

namespace SchemaCatalog.Json.Reader

/-! ## Literals that are read -/

theorem spells_of_joined {ps : List Piece} {cs : List Char} (h : joined ps = some cs) :
    Spells ps cs := by
  fun_induction joined ps generalizing cs with
  | case1 =>
    cases h
    exact .nil
  | case2 c rest ih =>
    obtain ⟨others, hothers, rfl⟩ := Option.map_eq_some_iff.1 h
    exact .char (ih hothers)
  | case3 lead trail rest hlead htrail ih =>
    obtain ⟨others, hothers, rfl⟩ := Option.map_eq_some_iff.1 h
    exact .pair hlead htrail (ih hothers)
  | case4 | case5 | case7 => cases h
  | case6 n trail rest hlead htrail ih =>
    obtain ⟨others, hothers, rfl⟩ := Option.map_eq_some_iff.1 h
    exact .unit (by simpa using hlead) (by simpa using htrail) (ih hothers)
  | case8 n rest _ halone ih =>
    obtain ⟨others, hothers, rfl⟩ := Option.map_eq_some_iff.1 h
    rw [Bool.or_eq_true, not_or, Bool.not_eq_true, Bool.not_eq_true] at halone
    exact .unit halone.1 halone.2 (ih hothers)

theorem joined_of_spells {ps : List Piece} {cs : List Char} (h : Spells ps cs) :
    joined ps = some cs := by
  induction h with
  | nil => rfl
  | char _ ih => rw [joined, ih, Option.map_some]
  | @unit n ps cs hlead htrail _ ih =>
    -- What follows a unit decides which equation of the reader it takes.
    cases ps with
    | nil => simpa [joined, hlead, htrail] using ih
    | cons p ps =>
      cases p with
      | char c => rw [joined, if_neg (by simp [hlead, htrail]), ih, Option.map_some]; simp
      | unit m =>
        rw [joined, if_neg (by simp [hlead]), if_neg (by simp [htrail]), ih, Option.map_some]
  | pair hlead htrail _ ih => rw [joined, if_pos hlead, if_pos htrail, ih, Option.map_some]

theorem written_of_pieces {cs rest : List Char} {ps : List Piece}
    (h : pieces cs = some (ps, rest)) :
    ∃ text, WrittenPieces ps text ∧ cs = text ++ '"' :: rest := by
  fun_induction pieces cs generalizing ps rest with
  | case1 | case4 | case6 | case7 | case9 => cases h
  | case2 rest' =>
    cases h
    exact ⟨[], .nil, rfl⟩
  | case3 a b c d cs' n others rest' hread hunit ih =>
    cases h
    obtain ⟨text, htext, rfl⟩ := ih hread
    exact ⟨_, .cons (.unit hunit) htext, rfl⟩
  | case5 letter cs' _ meant others rest' hread hescape ih =>
    cases h
    obtain ⟨text, htext, rfl⟩ := ih hread
    exact ⟨_, .cons (.short hescape) htext, rfl⟩
  | case8 c cs' hquote _ _ hplain others rest' hread ih =>
    cases h
    obtain ⟨text, htext, rfl⟩ := ih hread
    rw [not_or] at hplain
    exact ⟨_, .cons (.plain hplain.1 hquote hplain.2) htext, rfl⟩

theorem written_of_string {cs rest : List Char} {s : Option String}
    (h : string cs = some (s, rest)) :
    ∃ text, WrittenString s text ∧ '"' :: cs = text ++ rest := by
  obtain ⟨⟨ps, rest'⟩, hpieces, heq⟩ := Option.map_eq_some_iff.1 h
  cases heq
  obtain ⟨text, htext, rfl⟩ := written_of_pieces hpieces
  refine ⟨'"' :: (text ++ ['"']), ?_, by simp⟩
  cases hjoined : joined ps with
  | some cs => exact .text htext (by simpa using spells_of_joined hjoined)
  | none =>
    refine .half htext fun cs hspells => ?_
    rw [joined_of_spells hspells] at hjoined
    cases hjoined

/-! ## Numbers that are read -/

theorem digits_of_digitRun {cs run rest : List Char} (h : digitRun cs = some (run, rest)) :
    Digits run ∧ cs = run ++ rest := by
  rw [digitRun] at h
  split at h
  · cases h
  · rename_i hne
    cases h
    refine ⟨⟨hne, fun c hc => ?_⟩, List.takeWhile_append_dropWhile.symm⟩
    exact List.mem_takeWhile_imp hc

theorem written_of_whole {cs rest : List Char} {n : Nat} (h : whole cs = some (n, rest)) :
    ∃ text, WrittenWhole n text ∧ cs = text ++ rest := by
  unfold whole at h
  split at h
  · cases h
    exact ⟨_, .zero, rfl⟩
  · rename_i hzero
    obtain ⟨⟨run, rest'⟩, hrun, heq⟩ := Option.map_eq_some_iff.1 h
    cases heq
    obtain ⟨hdigits, rfl⟩ := digits_of_digitRun hrun
    cases run with
    | nil => exact absurd rfl hdigits.1
    | cons first others =>
      refine ⟨_, .run hdigits ?_, rfl⟩
      rintro rfl
      exact hzero _ rfl

theorem isFraction_of_fraction {cs part rest : List Char} (h : fraction cs = some (part, rest)) :
    IsFraction part ∧ cs = part ++ rest := by
  unfold fraction at h
  split at h
  · obtain ⟨⟨run, rest'⟩, hrun, heq⟩ := Option.map_eq_some_iff.1 h
    cases heq
    obtain ⟨hdigits, rfl⟩ := digits_of_digitRun hrun
    exact ⟨.digits hdigits, rfl⟩
  · cases h
    exact ⟨.none, rfl⟩

theorem isExponent_of_exponent {cs power rest : List Char} (h : exponent cs = some (power, rest)) :
    IsExponent power ∧ cs = power ++ rest := by
  unfold exponent at h
  split at h
  · rename_i mark others
    split at h
    · rename_i hmark
      split at h
      · rename_i sign more
        split at h
        · rename_i hsign
          obtain ⟨⟨run, rest'⟩, hrun, heq⟩ := Option.map_eq_some_iff.1 h
          cases heq
          obtain ⟨hdigits, rfl⟩ := digits_of_digitRun hrun
          exact ⟨.signed hmark hsign hdigits, rfl⟩
        · obtain ⟨⟨run, rest'⟩, hrun, heq⟩ := Option.map_eq_some_iff.1 h
          cases heq
          obtain ⟨hdigits, hsplit⟩ := digits_of_digitRun hrun
          rw [hsplit]
          exact ⟨.unsigned hmark hdigits, rfl⟩
      · cases h
    · cases h
      exact ⟨.none, rfl⟩
  · cases h
    exact ⟨.none, rfl⟩

theorem written_of_unsigned {negative : Bool} {cs rest : List Char} {n : Numeral}
    (h : unsigned negative cs = some (n, rest)) :
    ∃ text, WrittenUnsigned negative n text ∧ cs = text ++ rest := by
  simp only [unsigned, Option.bind_eq_bind, Option.bind_eq_some_iff, Option.pure_def,
    Option.some.injEq] at h
  obtain ⟨⟨n, rest₁⟩, hwhole, ⟨part, rest₂⟩, hpart, ⟨power, rest₃⟩, hpower, heq⟩ := h
  cases heq
  obtain ⟨digits, hdigits, rfl⟩ := written_of_whole hwhole
  obtain ⟨hfraction, hrest₁⟩ := isFraction_of_fraction hpart
  obtain ⟨hexponent, hrest₂⟩ := isExponent_of_exponent hpower
  dsimp only at hrest₁ hrest₂
  refine ⟨_, .mk hdigits hfraction hexponent, ?_⟩
  rw [hrest₁, hrest₂]
  simp

theorem written_of_numeral {cs rest : List Char} {n : Numeral} (h : numeral cs = some (n, rest)) :
    ∃ text, WrittenNumeral n text ∧ cs = text ++ rest := by
  unfold numeral at h
  split at h
  · obtain ⟨text, htext, rfl⟩ := written_of_unsigned h
    exact ⟨_, .minus htext, rfl⟩
  · obtain ⟨text, htext, rfl⟩ := written_of_unsigned h
    exact ⟨_, .plain htext, rfl⟩

/-! ## Literals that are written -/

theorem pieces_written {ps : List Piece} {cs : List Char} (h : WrittenPieces ps cs)
    (tail : List Char) : pieces (cs ++ '"' :: tail) = some (ps, tail) := by
  induction h with
  | nil => rfl
  | cons first _ ih =>
    rw [List.append_assoc]
    cases first with
    | plain printable quote backslash =>
      rw [List.singleton_append, pieces_plain quote backslash printable, ih, Option.map_some]
    | @short letter meant escape =>
      have hu : letter ≠ 'u' := by
        rintro rfl
        cases escape
      rw [List.cons_append, List.singleton_append, pieces_short escape hu, ih, Option.map_some]
    | unit escape =>
      simp only [List.cons_append, List.nil_append]
      rw [pieces, escape, ih]

theorem string_of_written {s : Option String} {cs : List Char} (h : WrittenString s cs)
    (tail : List Char) : ∃ body, cs = '"' :: body ∧ string (body ++ tail) = some (s, tail) := by
  cases h with
  | text written spelled =>
    refine ⟨_, rfl, ?_⟩
    rw [List.append_assoc, List.singleton_append, string, pieces_written written, Option.map_some]
    dsimp only
    rw [joined_of_spells spelled, Option.map_some, String.ofList_toList]
  | @half ps cs written unspelled =>
    refine ⟨_, rfl, ?_⟩
    rw [List.append_assoc, List.singleton_append, string, pieces_written written, Option.map_some]
    dsimp only
    cases hjoined : joined ps with
    | none => rfl
    | some cs => exact absurd (spells_of_joined hjoined) (unspelled cs)

/-- A run of digits ends where something else comes. -/
theorem digitRun_append {run tail : List Char} (h : Digits run)
    (htail : tail.takeWhile isDigit = []) : digitRun (run ++ tail) = some (run, tail) := by
  have htake : (run ++ tail).takeWhile isDigit = run := by
    rw [List.takeWhile_append_of_pos h.2, htail, List.append_nil]
  have hdrop : (run ++ tail).dropWhile isDigit = tail := by
    have hsplit := List.takeWhile_append_dropWhile (p := isDigit) (l := run ++ tail)
    rw [htake] at hsplit
    exact List.append_cancel_left hsplit
  rw [digitRun, htake, hdrop]
  cases run with
  | nil => exact absurd rfl h.1
  | cons first rest => rfl

theorem exponent_written {power tail : List Char} (h : IsExponent power) (htail : Closes tail) :
    exponent (power ++ tail) = some (power, tail) := by
  cases h with
  | none => exact exponent_of_closes htail
  | @unsigned mark run marks digits =>
    cases run with
    | nil => exact absurd rfl digits.1
    | cons first rest =>
      have hsign : ¬ (first = '+' ∨ first = '-') := by
        have hfirst := digits.2 first List.mem_cons_self
        rintro (rfl | rfl) <;> exact absurd hfirst (by decide)
      have hrun := digitRun_append digits htail.takeWhile
      rw [List.cons_append] at hrun
      rw [List.cons_append, List.cons_append, exponent, if_pos marks]
      dsimp only
      rw [if_neg hsign, hrun, Option.map_some]
  | signed marks signs digits =>
    rw [List.cons_append, List.cons_append, exponent, if_pos marks]
    dsimp only
    rw [if_pos signs, digitRun_append digits htail.takeWhile, Option.map_some]

/-- An exponent goes on with neither digits nor a fraction. -/
theorem exponent_stops {power tail : List Char} (h : IsExponent power) (htail : Closes tail) :
    (power ++ tail).takeWhile isDigit = [] ∧ ∀ rest, power ++ tail ≠ '.' :: rest := by
  have hmark : ∀ {mark : Char} {rest : List Char}, mark = 'e' ∨ mark = 'E' →
      (mark :: rest).takeWhile isDigit = [] ∧ ∀ rest', mark :: rest ≠ '.' :: rest' := by
    rintro mark rest (rfl | rfl) <;> exact ⟨rfl, by simp⟩
  cases h with
  | none => exact ⟨htail.takeWhile, fun rest heq => (htail _ _ heq).2.1 rfl⟩
  | unsigned marks | signed marks => exact hmark marks

theorem fraction_written {part rest : List Char} (h : IsFraction part)
    (hdigits : rest.takeWhile isDigit = []) (hdot : ∀ more, rest ≠ '.' :: more) :
    fraction (part ++ rest) = some (part, rest) := by
  cases h with
  | none =>
    unfold fraction
    split
    · rename_i heq
      exact absurd heq (hdot _)
    · rfl
  | digits digits =>
    rw [List.cons_append, fraction, digitRun_append digits hdigits, Option.map_some]

theorem fraction_stops {part rest : List Char} (h : IsFraction part)
    (hdigits : rest.takeWhile isDigit = []) : (part ++ rest).takeWhile isDigit = [] := by
  cases h with
  | none => exact hdigits
  | digits digits => rfl

theorem whole_of_written {n : Nat} {digits rest : List Char} (h : WrittenWhole n digits)
    (hrest : rest.takeWhile isDigit = []) : whole (digits ++ rest) = some (n, rest) := by
  cases h with
  | zero => rfl
  | run digits leads =>
    have hrun := digitRun_append digits hrest
    unfold whole
    split
    · rename_i heq
      rw [List.cons_append] at heq
      cases heq
      exact absurd rfl leads
    · rw [hrun, Option.map_some]
      rfl

theorem unsigned_of_written {negative : Bool} {n : Numeral} {cs tail : List Char}
    (h : WrittenUnsigned negative n cs) (htail : Closes tail) :
    unsigned negative (cs ++ tail) = some (n, tail) := by
  obtain ⟨hwhole, hfraction, hexponent⟩ := h
  obtain ⟨hdigits, hdot⟩ := exponent_stops hexponent htail
  rw [unsigned, List.append_assoc, List.append_assoc,
    whole_of_written hwhole (fraction_stops hfraction hdigits)]
  simp [fraction_written hfraction hdigits hdot, exponent_written hexponent htail]

/-- A numeral starts with a digit or with its sign. -/
theorem unsigned_starts {negative : Bool} {n : Numeral} {cs : List Char}
    (h : WrittenUnsigned negative n cs) : ∃ c rest, cs = c :: rest ∧ isDigit c = true := by
  obtain ⟨hwhole, -, -⟩ := h
  cases hwhole with
  | zero => exact ⟨'0', _, rfl, rfl⟩
  | run digits => exact ⟨_, _, rfl, digits.2 _ List.mem_cons_self⟩

theorem numeral_starts_of_written {n : Numeral} {cs : List Char} (h : WrittenNumeral n cs) :
    ∃ c rest, cs = c :: rest ∧ (isDigit c = true ∨ c = '-') := by
  cases h with
  | plain h =>
    obtain ⟨c, rest, rfl, hc⟩ := unsigned_starts h
    exact ⟨c, rest, rfl, .inl hc⟩
  | minus => exact ⟨'-', _, rfl, .inr rfl⟩

theorem value_of_numeral {steps : Nat} {n : Numeral} {cs tail : List Char}
    (h : WrittenNumeral n cs) (htail : Closes tail) :
    value (steps + 1) (cs ++ tail) = some (.number n, tail) := by
  cases h with
  | plain h =>
    have hread := unsigned_of_written h htail
    obtain ⟨c, rest, rfl, hc⟩ := unsigned_starts h
    rw [List.cons_append] at hread ⊢
    rw [value_numeral steps (.inl hc)]
    unfold numeral
    split
    · rename_i heq
      cases heq
      exact absurd hc (by decide)
    · rw [hread, Option.map_some]
  | minus h =>
    rw [List.cons_append, value_numeral steps (.inr rfl), numeral, unsigned_of_written h htail,
      Option.map_some]

end SchemaCatalog.Json.Reader
