import SchemaCatalog.Text.LetterCase
import SchemaCatalog.Url.Percent

/-!
# SchemaCatalog.Proofs.Url.Percent

What escapes in a path stand for.

Encoding a path segment never changes what it decodes to (`percentDecode_percentEncode`): a
character is either kept or written as its bytes, and neither makes or breaks an escape around it.
Decoding gives the bytes of a text itself exactly when the text holds no escape of its own, and
fewer bytes otherwise (`percentDecode_eq_bytes_iff`).
-/

namespace SchemaCatalog

open Text (hexDigit? hexCapital hexDigit?_hexCapital)

/-! ## Bytes of a text -/

namespace Text.Utf8

/-- The bytes that encode a text. -/
def bytes (cs : List Char) : List UInt8 := cs.flatMap String.utf8EncodeChar

@[simp] theorem bytes_nil : bytes [] = [] := rfl

@[simp] theorem bytes_cons (c : Char) (cs : List Char) :
    bytes (c :: cs) = String.utf8EncodeChar c ++ bytes cs := List.flatMap_cons

theorem bytes_toList_inj {s t : String} : bytes s.toList = bytes t.toList ↔ s = t := by
  constructor
  · intro h
    have hencoded : s.toList.utf8Encode = t.toList.utf8Encode := congrArg List.toByteArray h
    rwa [String.utf8Encode_toList, String.utf8Encode_toList, String.toByteArray_inj] at hencoded
  · rintro rfl
    rfl

theorem length_bytes_cons (c : Char) (cs : List Char) :
    (bytes (c :: cs)).length = c.utf8Size + (bytes cs).length := by
  rw [bytes_cons, List.length_append, String.length_utf8EncodeChar]

/-- Every character has a byte, so a part of a text that has as many bytes is the text. -/
theorem eq_of_sublist_of_bytes {part cs : List Char} (h : part.Sublist cs)
    (hlength : (bytes cs).length ≤ (bytes part).length) : part = cs := by
  have hle : ∀ {part cs : List Char}, part.Sublist cs →
      (bytes part).length ≤ (bytes cs).length := by
    intro part cs h
    induction h with
    | slnil => exact Nat.le_refl _
    | cons c _ ih => rw [length_bytes_cons]; omega
    | cons_cons c _ ih => rw [length_bytes_cons, length_bytes_cons]; omega
  induction h with
  | slnil => rfl
  | cons c h _ =>
    have hrest := hle h
    have hpos := c.utf8Size_pos
    rw [length_bytes_cons] at hlength
    omega
  | cons_cons c _ ih =>
    rw [length_bytes_cons, length_bytes_cons] at hlength
    rw [ih (by omega)]

end Text.Utf8

namespace Url

open Text.Utf8 (bytes)

/-! ## One step of decoding -/

/-- Whether a percent sign before the text makes an escape. -/
def opensEscape : List Char → Bool
  | a :: b :: _ => (hexDigit? a).isSome && (hexDigit? b).isSome
  | _ => false

theorem percentDecode_percent {cs : List Char} (h : opensEscape cs = false) :
    percentDecode ('%' :: cs) = 0x25 :: percentDecode cs := by
  match cs with
  | [] => decide
  | [a] => rfl
  | a :: b :: rest =>
    rw [opensEscape, Bool.and_eq_false_iff] at h
    rw [percentDecode]
    cases ha : hexDigit? a with
    | none => rfl
    | some high =>
      cases hb : hexDigit? b with
      | none => rfl
      | some low => simp [ha, hb] at h

theorem percentDecode_cons_of_ne {c : Char} (h : c ≠ '%') (cs : List Char) :
    percentDecode (c :: cs) = String.utf8EncodeChar c ++ percentDecode cs := by
  rw [percentDecode]
  intro a b rest heq
  exact absurd heq h

theorem percentDecode_percentByte_append (b : UInt8) (cs : List Char) :
    percentDecode (percentByte b ++ cs) = b :: percentDecode cs := by
  have hb : b.toNat < 256 := b.toNat_lt
  have hhigh := hexDigit?_hexCapital (b.toNat / 16) (by omega)
  have hlow := hexDigit?_hexCapital (b.toNat % 16) (by omega)
  rw [percentByte, List.cons_append, List.cons_append, List.cons_append, List.nil_append,
    percentDecode, hhigh, hlow]
  simp only
  rw [Nat.div_add_mod' b.toNat 16, UInt8.ofNat_toNat]

theorem percentDecode_percentBytes_append (bs : List UInt8) (cs : List Char) :
    percentDecode (bs.flatMap percentByte ++ cs) = bs ++ percentDecode cs := by
  induction bs with
  | nil => rfl
  | cons b rest ih =>
    rw [List.flatMap_cons, List.append_assoc, percentDecode_percentByte_append, ih,
      List.cons_append]

/-! ## Decoding what has been encoded -/

/-- The characters of a path segment that are written as they are. -/
def isKept (c : Char) : Bool := !(inPath c || 0x7F ≤ c.toNat)

theorem percentEncode_cons_of_kept {c : Char} (h : isKept c = true) (cs : List Char) :
    percentEncode inPath (c :: cs) = c :: percentEncode inPath cs := by
  rw [isKept, Bool.not_eq_true'] at h
  rw [percentEncode, List.flatMap_cons, h]
  rfl

theorem percentEncode_of_kept {cs : List Char} (h : ∀ c ∈ cs, isKept c = true) :
    percentEncode inPath cs = cs := by
  induction cs with
  | nil => rfl
  | cons c rest ih =>
    obtain ⟨hc, hrest⟩ := List.forall_mem_cons.1 h
    rw [percentEncode_cons_of_kept hc, ih hrest]

theorem percentEncode_cons_of_not_kept {c : Char} (h : isKept c = false) (cs : List Char) :
    percentEncode inPath (c :: cs) =
      (String.utf8EncodeChar c).flatMap percentByte ++ percentEncode inPath cs := by
  rw [isKept, Bool.not_eq_false'] at h
  rw [percentEncode, List.flatMap_cons, h]
  rfl

theorem exists_percent_of_not_kept {c : Char} (h : isKept c = false) (cs : List Char) :
    ∃ rest, percentEncode inPath (c :: cs) = '%' :: rest := by
  rw [percentEncode_cons_of_not_kept h]
  cases hbytes : String.utf8EncodeChar c with
  | nil => exact absurd hbytes String.utf8EncodeChar_ne_nil
  | cons b bs => exact ⟨_, rfl⟩

theorem isKept_of_hexDigit? {c : Char} (h : (hexDigit? c).isSome = true) : isKept c = true := by
  have hcode : c.toNat < 128 := by
    have hupper : c ≤ 'f' := by
      rw [hexDigit?] at h
      split at h
      · rename_i hdigit
        exact Char.le_trans hdigit.2 (by decide)
      · split at h
        · rename_i hsmall
          exact hsmall.2
        · split at h
          · rename_i hcapital
            exact Char.le_trans hcapital.2 (by decide)
          · cases h
    exact Nat.lt_of_le_of_lt (show c.toNat ≤ 'f'.toNat from hupper) (by decide)
  exact Text.LetterCase.forall_ascii
    (P := fun c => (hexDigit? c).isSome = true → isKept c = true) (by decide) hcode h

/-- No escape begins or ends where a character is written as bytes. -/
theorem opensEscape_percentEncode (cs : List Char) :
    opensEscape (percentEncode inPath cs) = opensEscape cs := by
  have hpercent : ∀ {c : Char}, isKept c = false → (hexDigit? c).isSome = false := fun {c} hc =>
    Bool.eq_false_iff.2 fun hdigit => by rw [isKept_of_hexDigit? hdigit] at hc; cases hc
  match cs with
  | [] => rfl
  | [a] =>
    cases ha : isKept a with
    | true => rw [percentEncode_cons_of_kept ha]; rfl
    | false =>
      obtain ⟨rest, hrest⟩ := exists_percent_of_not_kept ha []
      rw [hrest]
      cases rest <;> rfl
  | a :: b :: rest =>
    cases ha : isKept a with
    | false =>
      obtain ⟨more, hmore⟩ := exists_percent_of_not_kept ha (b :: rest)
      rw [hmore, opensEscape, hpercent ha]
      cases more <;> rfl
    | true =>
      rw [percentEncode_cons_of_kept ha]
      cases hb : isKept b with
      | true => rw [percentEncode_cons_of_kept hb]; rfl
      | false =>
        obtain ⟨more, hmore⟩ := exists_percent_of_not_kept hb rest
        rw [hmore, opensEscape, opensEscape, hpercent hb, Bool.and_false]
        exact Bool.and_false _

/-- Encoding a path segment does not change what it stands for. -/
theorem percentDecode_percentEncode (cs : List Char) :
    percentDecode (percentEncode inPath cs) = percentDecode cs := by
  have hkept : isKept '%' = true := by decide
  fun_induction percentDecode cs with
  | case1 => rfl
  | case2 a b rest high low hlow hhigh ih =>
    have ha := isKept_of_hexDigit? (Option.isSome_of_mem hhigh)
    have hb := isKept_of_hexDigit? (Option.isSome_of_mem hlow)
    rw [percentEncode_cons_of_kept hkept, percentEncode_cons_of_kept ha,
      percentEncode_cons_of_kept hb, percentDecode, hhigh, hlow]
    simp only [ih]
  | case3 a b rest hescape ih =>
    have hopens : opensEscape (a :: b :: rest) = false := by
      rw [opensEscape, Bool.and_eq_false_iff]
      cases ha : hexDigit? a with
      | none => exact .inl rfl
      | some high =>
        cases hb : hexDigit? b with
        | none => exact .inr rfl
        | some low => exact absurd hb (hescape high low ha)
    rw [percentEncode_cons_of_kept hkept, percentDecode_percent, ih]
    rw [opensEscape_percentEncode, hopens]
  | case4 c rest hopens ih =>
    cases hc : isKept c with
    | false => rw [percentEncode_cons_of_not_kept hc, percentDecode_percentBytes_append, ih]
    | true =>
      rw [percentEncode_cons_of_kept hc]
      by_cases heq : c = '%'
      · subst heq
        have hshort : opensEscape rest = false := by
          match rest with
          | [] | [_] => rfl
          | a :: b :: more => exact absurd rfl (hopens a b more rfl)
        rw [percentDecode_percent, ih]
        · rfl
        · rw [opensEscape_percentEncode, hshort]
      · rw [percentDecode_cons_of_ne heq, ih]

/-! ## Texts that stand for themselves -/

/-- Whether a percent sign stands before two digits somewhere. -/
def holdsEscape : List Char → Bool
  | [] => false
  | c :: rest => (c = '%' && opensEscape rest) || holdsEscape rest

theorem length_percentDecode_le (cs : List Char) :
    (percentDecode cs).length ≤ (bytes cs).length := by
  fun_induction percentDecode cs with
  | case1 => exact Nat.le_refl _
  | case2 a b rest high low _ _ ih =>
    simp only [Text.Utf8.length_bytes_cons, List.length_cons]
    have := Char.utf8Size_pos '%'
    omega
  | case3 a b rest _ ih =>
    rw [Text.Utf8.length_bytes_cons, List.length_cons]
    have := Char.utf8Size_pos '%'
    omega
  | case4 c rest _ ih =>
    rw [Text.Utf8.length_bytes_cons, List.length_append, String.length_utf8EncodeChar]
    omega

/-- A text decodes to its own bytes when it holds no escape, and only then. -/
theorem percentDecode_eq_bytes_iff (cs : List Char) :
    percentDecode cs = bytes cs ↔ holdsEscape cs = false := by
  induction cs with
  | nil => exact iff_of_true rfl rfl
  | cons c rest ih =>
    by_cases hescape : c = '%' ∧ opensEscape rest = true
    · obtain ⟨rfl, hopens⟩ := hescape
      match rest with
      | [] | [_] => cases hopens
      | a :: b :: more =>
        refine iff_of_false (fun heq => ?_) (by simp [holdsEscape, hopens])
        rw [opensEscape, Bool.and_eq_true] at hopens
        obtain ⟨high, hhigh⟩ := Option.isSome_iff_exists.1 hopens.1
        obtain ⟨low, hlow⟩ := Option.isSome_iff_exists.1 hopens.2
        rw [percentDecode, hhigh, hlow] at heq
        have hlength := congrArg List.length heq
        have hle := length_percentDecode_le more
        simp only [Text.Utf8.length_bytes_cons, List.length_cons] at hlength
        have ha := Char.utf8Size_pos a
        have hb := Char.utf8Size_pos b
        have hc := Char.utf8Size_pos '%'
        omega
    · have hnot : (decide (c = '%') && opensEscape rest) = false := by
        rw [Bool.eq_false_iff]
        simpa using hescape
      rw [holdsEscape, hnot, Bool.false_or, ← ih, Text.Utf8.bytes_cons]
      have hstep : percentDecode (c :: rest) = String.utf8EncodeChar c ++ percentDecode rest := by
        by_cases hc : c = '%'
        · subst hc
          rw [percentDecode_percent (by simpa using hescape)]
          rfl
        · exact percentDecode_cons_of_ne hc rest
      rw [hstep, List.append_cancel_left_eq]

end Url

end SchemaCatalog
