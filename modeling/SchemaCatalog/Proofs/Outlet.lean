import Mathlib.Data.String.Basic
import SchemaCatalog.Outlet

/-!
# SchemaCatalog.Proofs.Outlet

What is taken of a text that is written.

It is a beginning of the text, and when nothing is refused it is the whole text.
-/

namespace SchemaCatalog.Outlet

open String (utf8Len)

variable {o : Outlet} {text : String}

theorem refuses_eq_true : o.refuses text = true ↔ ∃ cause, o.refusal? text = some cause :=
  Option.isSome_iff_exists

theorem not_refuses_iff : ¬ o.refuses text = true ↔ o.refusal? text = none := by
  rw [refuses, Bool.not_eq_true, Option.isSome_eq_false_iff, Option.isNone_iff_eq_none]

theorem refusal?_empty (o : Outlet) : o.refusal? "" = none := by
  cases o with
  | endless => rfl
  | limited room cause =>
    rw [refusal?]
    exact if_pos (Nat.zero_le room)

theorem charactersWithin_of_le {room : Nat} {cs : List Char} (h : utf8Len cs ≤ room) :
    charactersWithin room cs = cs := by
  induction cs generalizing room with
  | nil => rfl
  | cons c rest ih =>
    rw [String.utf8Len_cons] at h
    rw [charactersWithin, if_pos (by omega), ih (by omega)]

theorem charactersWithin_prefix (room : Nat) (cs : List Char) :
    charactersWithin room cs <+: cs := by
  induction cs generalizing room with
  | nil => exact List.prefix_rfl
  | cons c rest ih =>
    rw [charactersWithin]
    split
    · exact (List.prefix_cons_inj c).2 (ih _)
    · exact List.nil_prefix

theorem textTaken_prefix (o : Outlet) (text : String) :
    (o.textTaken text).toList <+: text.toList := by
  cases o with
  | endless => exact List.prefix_rfl
  | limited room cause =>
    rw [textTaken, String.toList_ofList]
    exact charactersWithin_prefix room text.toList

theorem limited_refusal?_eq_none {room : Nat} {cause : IoError} :
    (limited room cause).refusal? text = none ↔ text.utf8ByteSize ≤ room := by
  rw [refusal?]
  split <;> simp [*]

theorem textTaken_of_taken (h : o.refusal? text = none) : o.textTaken text = text := by
  cases o with
  | endless => rfl
  | limited room cause =>
    have hroom : utf8Len text.toList ≤ room := by
      rw [String.utf8Len_toList]
      exact limited_refusal?_eq_none.1 h
    rw [textTaken, charactersWithin_of_le hroom, String.ofList_toList]

theorem bytesTaken_of_taken (h : o.refusal? text = none) : o.bytesTaken text = text.toUTF8 := by
  cases o with
  | endless => rfl
  | limited room cause =>
    have hroom : text.toUTF8.size ≤ room := limited_refusal?_eq_none.1 h
    apply ByteArray.ext
    rw [bytesTaken, ByteArray.data_extract]
    exact Array.extract_eq_self_of_le hroom

end SchemaCatalog.Outlet
