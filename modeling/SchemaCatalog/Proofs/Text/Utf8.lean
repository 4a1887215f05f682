import SchemaCatalog.Proofs.Url.Percent
import SchemaCatalog.Text.Utf8

/-!
# SchemaCatalog.Proofs.Text.Utf8

Decoding gives back every text that was encoded.

The first byte of a sequence tells how long it is, so there is one lemma for each length. A
sequence is decoded to its character whatever stands behind it (`character_encoded`), and a text
character by character.
-/

namespace SchemaCatalog.Text.Utf8

/-! ## Sequences by their length -/

section Sequences

variable {a b d e : Nat} (rest : List UInt8)

theorem toNat_ofNat {n : Nat} (h : n < 256) : (UInt8.ofNat n).toNat = n := by
  rw [UInt8.toNat_ofNat', Nat.mod_eq_of_lt h]

theorem isTail_ofNat (h : 0x80 ≤ b) (h' : b ≤ 0xBF) : isTail (UInt8.ofNat b) = true := by
  have hb := toNat_ofNat (n := b) (by omega)
  simp [isTail, UInt8.le_iff_toNat_le, hb, h, h']

/-- A second byte may be any that continues a sequence, but after two of the first bytes the range
of the second is cut at one end. -/
theorem second_ofNat {cut cut' low high : UInt8} (ha : a < 256) (hb : 0x80 ≤ b) (hb' : b ≤ 0xBF)
    (hlow : a = cut.toNat → low.toNat ≤ b) (hhigh : a = cut'.toNat → b ≤ high.toNat) :
    (if UInt8.ofNat a = cut then decide (low ≤ UInt8.ofNat b) && decide (UInt8.ofNat b ≤ 0xBF)
      else if UInt8.ofNat a = cut' then
        decide (0x80 ≤ UInt8.ofNat b) && decide (UInt8.ofNat b ≤ high)
      else isTail (UInt8.ofNat b)) = true := by
  have hnat := toNat_ofNat ha
  have hnat' := toNat_ofNat (n := b) (by omega)
  split
  · rename_i h
    have hlow := hlow (by rw [← h, hnat])
    simp [UInt8.le_iff_toNat_le, hnat', hlow, hb']
  · split
    · rename_i h
      have hhigh := hhigh (by rw [← h, hnat])
      simp [UInt8.le_iff_toNat_le, hnat', hhigh, hb]
    · exact isTail_ofNat hb hb'

theorem character_one (ha : a < 0x80) : character (UInt8.ofNat a) rest = (Char.ofNat a, 0) := by
  have hnat := toNat_ofNat (n := a) (by omega)
  have hlt : UInt8.ofNat a < 0x80 := by
    rw [UInt8.lt_iff_toNat_lt, hnat]
    exact ha
  unfold character
  rw [if_pos hlt, hnat]

theorem character_two (ha : 0xC2 ≤ a) (ha' : a ≤ 0xDF) (hb : 0x80 ≤ b) (hb' : b ≤ 0xBF) :
    character (UInt8.ofNat a) (UInt8.ofNat b :: rest) =
      (Char.ofNat (a % 0x20 * 0x40 + b % 0x40), 1) := by
  have hnat := toNat_ofNat (n := a) (by omega)
  have hnat' := toNat_ofNat (n := b) (by omega)
  have htail := isTail_ofNat hb hb'
  have h₁ : ¬ a < 128 := by omega
  unfold character
  simp [UInt8.lt_iff_toNat_lt, UInt8.le_iff_toNat_le, hnat, hnat', htail, tailBits, h₁, ha, ha']

theorem character_three (ha : 0xE0 ≤ a) (ha' : a ≤ 0xEF) (hb : 0x80 ≤ b) (hb' : b ≤ 0xBF)
    (hlow : a = 0xE0 → 0xA0 ≤ b) (hhigh : a = 0xED → b ≤ 0x9F) (hd : 0x80 ≤ d) (hd' : d ≤ 0xBF) :
    character (UInt8.ofNat a) (UInt8.ofNat b :: UInt8.ofNat d :: rest) =
      (Char.ofNat ((a % 0x10 * 0x40 + b % 0x40) * 0x40 + d % 0x40), 2) := by
  have hnat := toNat_ofNat (n := a) (by omega)
  have hnat' := toNat_ofNat (n := b) (by omega)
  have hnat'' := toNat_ofNat (n := d) (by omega)
  have htail := isTail_ofNat hd hd'
  have hsecond : secondOfThree (UInt8.ofNat a) (UInt8.ofNat b) = true :=
    second_ofNat (by omega) hb hb' hlow hhigh
  have h₁ : ¬ a < 128 := by omega
  have h₂ : ¬ (194 ≤ a ∧ a ≤ 223) := by omega
  unfold character
  simp [UInt8.lt_iff_toNat_lt, UInt8.le_iff_toNat_le, hnat, hnat', hnat'', htail, hsecond, tailBits,
    h₁, h₂, ha, ha']

theorem character_four (ha : 0xF0 ≤ a) (ha' : a ≤ 0xF4) (hb : 0x80 ≤ b) (hb' : b ≤ 0xBF)
    (hlow : a = 0xF0 → 0x90 ≤ b) (hhigh : a = 0xF4 → b ≤ 0x8F) (hd : 0x80 ≤ d) (hd' : d ≤ 0xBF)
    (he : 0x80 ≤ e) (he' : e ≤ 0xBF) :
    character (UInt8.ofNat a) (UInt8.ofNat b :: UInt8.ofNat d :: UInt8.ofNat e :: rest) =
      (Char.ofNat (((a % 0x08 * 0x40 + b % 0x40) * 0x40 + d % 0x40) * 0x40 + e % 0x40), 3) := by
  have hnat := toNat_ofNat (n := a) (by omega)
  have hnat' := toNat_ofNat (n := b) (by omega)
  have hnat'' := toNat_ofNat (n := d) (by omega)
  have hnatE := toNat_ofNat (n := e) (by omega)
  have htail := isTail_ofNat hd hd'
  have htail' := isTail_ofNat he he'
  have hsecond : secondOfFour (UInt8.ofNat a) (UInt8.ofNat b) = true :=
    second_ofNat (by omega) hb hb' hlow hhigh
  have h₁ : ¬ a < 128 := by omega
  have h₂ : ¬ (194 ≤ a ∧ a ≤ 223) := by omega
  have h₃ : ¬ (224 ≤ a ∧ a ≤ 239) := by omega
  unfold character
  simp [UInt8.lt_iff_toNat_lt, UInt8.le_iff_toNat_le, hnat, hnat', hnat'', hnatE, htail, htail',
    hsecond, tailBits, h₁, h₂, h₃, ha, ha']

end Sequences

/-! ## Texts -/

/-- The bytes of a character are decoded to it, whatever stands behind them. -/
theorem character_encoded (c : Char) (rest : List UInt8) :
    ∃ first tail, String.utf8EncodeChar c = first :: tail ∧
      character first (tail ++ rest) = (c, tail.length) := by
  obtain ⟨v, hv⟩ : ∃ v, c.val.toNat = v := ⟨_, rfl⟩
  have hvalid : v < 0xD800 ∨ (0xDFFF < v ∧ v < 0x110000) := hv ▸ c.valid
  have hself : ∀ n, n = v → Char.ofNat n = c := by
    rintro n rfl
    rw [← hv]
    exact Char.ofNat_toNat c
  unfold String.utf8EncodeChar
  simp only [hv]
  -- One case for each length, in which the code is put together again from its bits.
  split
  · refine ⟨_, [], rfl, ?_⟩
    rw [character_one _ (by omega), hself _ rfl]
    rfl
  split
  · refine ⟨_, [_], rfl, ?_⟩
    rw [List.singleton_append, character_two _ (by omega) (by omega) (by omega) (by omega),
      hself _ (by omega)]
    rfl
  split
  · refine ⟨_, [_, _], rfl, ?_⟩
    rw [List.cons_append, List.singleton_append, character_three _ (by omega) (by omega) (by omega)
      (by omega) (by omega) (by omega) (by omega) (by omega), hself _ (by omega)]
    rfl
  · refine ⟨_, [_, _, _], rfl, ?_⟩
    rw [List.cons_append, List.cons_append, List.singleton_append, character_four _ (by omega)
      (by omega) (by omega) (by omega) (by omega) (by omega) (by omega) (by omega) (by omega)
      (by omega), hself _ (by omega)]
    rfl

theorem characters_bytes (cs : List Char) : characters (bytes cs) = cs := by
  induction cs with
  | nil =>
    rw [bytes_nil]
    unfold characters
    rfl
  | cons c cs ih =>
    obtain ⟨first, tail, hbytes, hfirst⟩ := character_encoded c (bytes cs)
    rw [bytes_cons, hbytes, List.cons_append]
    -- Unfolded once: what is read behind the first character is again `characters`.
    unfold characters
    rw [hfirst]
    simp only [List.drop_left, ih]

/-! ## Arrays of bytes -/

theorem toList_loop (bs : ByteArray) (i : Nat) (read : List UInt8) :
    ByteArray.toList.loop bs i read = read.reverse ++ bs.data.toList.drop i := by
  fun_induction ByteArray.toList.loop bs i read with
  | case1 i read h ih =>
    have hi : i < bs.data.toList.length := by simpa using h
    rw [ih, List.drop_eq_getElem_cons hi]
    simp [ByteArray.get!, h]
  | case2 i read h =>
    rw [List.drop_eq_nil_of_le (by simpa using Nat.le_of_not_lt h), List.append_nil]

theorem toList_toUTF8 (s : String) : s.toUTF8.toList = bytes s.toList := by
  have hencoded : s.toUTF8 = (bytes s.toList).toByteArray := by
    rw [String.toUTF8_eq_toByteArray]
    exact (String.utf8Encode_toList).symm
  rw [ByteArray.toList, toList_loop, hencoded, List.toList_data_toByteArray]
  rfl

theorem decode_toUTF8 (s : String) : decode s.toUTF8 = s := by
  rw [decode, toList_toUTF8, characters_bytes, String.ofList_toList]

end SchemaCatalog.Text.Utf8
