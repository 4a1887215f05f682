import SchemaCatalog.Text.LetterCase

/-!
# SchemaCatalog.Proofs.Text.LetterCase

What can be found in the small form of a text.

The small form of a character can be several characters, and that of a capital sigma depends on
what stands around it, so a small form is longer than its text in places and is not a function of
its characters. But outside ASCII only two characters have an ASCII letter in their small forms,
the dotted I and the Kelvin sign. A pattern without i and k is therefore found in a small form just
where a stretch of the text is the pattern up to capital ASCII letters (`SmallForm.infix_iff`),
whichever sigmas the small form has.
-/

namespace SchemaCatalog.Text.LetterCase

/-- A small form of a text: that of each character, with either of the small sigmas for a capital
one. -/
inductive SmallForm : List Char → List Char → Prop
  | nil : SmallForm [] []
  | cons (c : Char) {text small : List Char} (h : SmallForm text small) :
      SmallForm (c :: text) (lower c ++ small)
  | finalSigma {text small : List Char} (h : SmallForm text small) :
      SmallForm ('Σ' :: text) ('ς' :: small)

theorem smallForm_lowerText (text : List Char) : SmallForm text (lowerText text) := by
  induction text with
  | nil => exact .nil
  | cons c text ih => exact .cons c ih

/-- An ASCII character that no other character has in its small form, letters in capitals aside. -/
def IsOwn (x : Char) : Prop := 0 < x.toNat ∧ x.toNat < 128 ∧ x ≠ 'i' ∧ x ≠ 'k'

instance (x : Char) : Decidable (IsOwn x) := by
  unfold IsOwn
  infer_instance

theorem forall_of_all {P : Char → Prop} [DecidablePred P] {cs : List Char}
    (h : cs.all (decide <| P ·) = true) : ∀ c ∈ cs, P c :=
  fun c hc => of_decide_eq_true (List.all_eq_true.1 h c hc)

/-! ## Single characters -/

theorem lower_of_ascii {c : Char} (hc : c.toNat < 128) : lower c = [asciiLower c] := by
  refine forall_ascii (P := fun c => lower c = [asciiLower c]) ?_ hc
  decide +kernel

/-- Where the table leads out of the codes behind ASCII: never into ASCII but for one letter. -/
theorem target_of_mem_smalls : ∀ s ∈ smalls,
    s.last < 128 ∨ 128 ≤ s.target ∨ (s.first = s.last ∧ s.target = 'k'.toNat) := by
  decide +kernel

theorem toNat_ofNat (code : Nat) :
    (Char.ofNat code).toNat = code ∨ (Char.ofNat code).toNat = 0 := by
  by_cases h : code.isValidChar
  · left
    rw [Char.ofNat, dif_pos h]
    rfl
  · right
    rw [Char.ofNat, dif_neg h]
    rfl

theorem not_isOwn_ofNat {code : Nat} (h : 128 ≤ code ∨ code = 'k'.toNat) :
    ¬ IsOwn (Char.ofNat code) := by
  rintro ⟨hpos, hlt, -, hk⟩
  rcases h with h | rfl
  · rcases toNat_ofNat code with hcode | hcode
    · omega
    · omega
  · exact hk (Char.ofNat_toNat 'k')

theorem of_image? {s : Span} {n code : Nat} (h : s.image? n = some code) :
    s.first ≤ n ∧ n ≤ s.last ∧ code = s.target + (n - s.first) := by
  rw [Span.image?] at h
  split at h
  · rename_i hspan
    exact ⟨hspan.1, hspan.2.1, (Option.some.inj h).symm⟩
  · cases h

theorem lower_of_not_ascii {c : Char} (hc : 128 ≤ c.toNat) :
    lower c ≠ [] ∧ ∀ x ∈ lower c, ¬ IsOwn x := by
  rw [lower, form]
  split
  · rename_i codes hlong
    -- Only the dotted I has a small form of several characters, an i and its dot.
    have hcodes : codes = [0x69, 0x307] := by
      rw [longSmalls, List.lookup_cons] at hlong
      split at hlong
      · exact (Option.some.inj hlong).symm
      · cases hlong
    rw [hcodes]
    exact ⟨by simp, forall_of_all (by decide)⟩
  · split
    · rename_i code hspan
      refine ⟨by simp, fun x hx => ?_⟩
      obtain ⟨s, hs, himage⟩ := List.exists_of_findSome?_eq_some hspan
      obtain ⟨hfirst, hlast, hcode⟩ := of_image? himage
      rw [List.mem_singleton.1 hx]
      refine not_isOwn_ofNat ?_
      rcases target_of_mem_smalls s hs with h | h | ⟨h, h'⟩
      · omega
      · exact .inl (by omega)
      · exact .inr (by omega)
    · refine ⟨by simp, fun x hx => ?_⟩
      rw [List.mem_singleton.1 hx]
      rintro ⟨-, hlt, -⟩
      omega

theorem ascii_of_isOwn {c : Char} (h : IsOwn (asciiLower c)) : c.toNat < 128 := by
  rw [asciiLower] at h
  split at h
  · rename_i hcapital
    have hle : c.toNat ≤ 'Z'.toNat := hcapital.2
    have hz : 'Z'.toNat = 90 := rfl
    omega
  · exact h.2.1

/-! ## Texts -/

section Find

variable {c : Char} {text small part : List Char}

/-- The small form of a character is its own, or holds nothing that is looked for. -/
theorem SmallForm.exists_piece (h : SmallForm (c :: text) small) :
    ∃ piece rest, small = piece ++ rest ∧ SmallForm text rest ∧
      ((c.toNat < 128 ∧ piece = [asciiLower c]) ∨
        (128 ≤ c.toNat ∧ piece ≠ [] ∧ ∀ x ∈ piece, ¬ IsOwn x)) := by
  cases h with
  | cons _ h =>
    refine ⟨lower c, _, rfl, h, ?_⟩
    by_cases hc : c.toNat < 128
    · exact .inl ⟨hc, lower_of_ascii hc⟩
    · exact .inr ⟨Nat.le_of_not_lt hc, lower_of_not_ascii (Nat.le_of_not_lt hc)⟩
  | finalSigma h =>
    refine ⟨['ς'], _, rfl, h, .inr ⟨by decide, by simp, forall_of_all (by decide)⟩⟩

theorem SmallForm.exists_prefix (h : SmallForm text small) (hown : ∀ x ∈ part, IsOwn x)
    (hpart : part <+: small) : ∃ piece, piece <+: text ∧ piece.map asciiLower = part := by
  induction part generalizing text small with
  | nil => exact ⟨[], List.nil_prefix, rfl⟩
  | cons x part ih =>
    obtain ⟨hx, htail⟩ := List.forall_mem_cons.1 hown
    cases text with
    | nil =>
      cases h
      cases List.prefix_nil.1 hpart
    | cons c text =>
      obtain ⟨piece, rest, rfl, hrest, hpiece⟩ := h.exists_piece
      rcases hpiece with ⟨-, rfl⟩ | ⟨-, hne, hforeign⟩
      · obtain ⟨rfl, hbehind⟩ := List.cons_prefix_cons.1 hpart
        obtain ⟨piece, hprefix, rfl⟩ := ih hrest htail hbehind
        exact ⟨c :: piece, List.cons_prefix_cons.2 ⟨rfl, hprefix⟩, rfl⟩
      · cases piece with
        | nil => exact absurd rfl hne
        | cons y piece =>
          obtain ⟨rfl, -⟩ := List.cons_prefix_cons.1 hpart
          exact absurd hx (hforeign _ List.mem_cons_self)

/-- What is found does not start in a stretch that holds nothing of it. -/
theorem infix_of_infix_append {piece rest : List Char} (hne : part ≠ [])
    (hown : ∀ x ∈ part, IsOwn x) (hforeign : ∀ x ∈ piece, ¬ IsOwn x)
    (hpart : part <:+: piece ++ rest) : part <:+: rest := by
  induction piece with
  | nil => exact hpart
  | cons y piece ih =>
    obtain ⟨hy, hforeign⟩ := List.forall_mem_cons.1 hforeign
    rcases List.infix_cons_iff.1 hpart with hpart | hpart
    · cases part with
      | nil => exact absurd rfl hne
      | cons x part =>
        obtain ⟨rfl, -⟩ := List.cons_prefix_cons.1 hpart
        exact absurd (hown _ List.mem_cons_self) hy
    · exact ih hforeign hpart

theorem SmallForm.exists_infix (h : SmallForm text small) (hne : part ≠ [])
    (hown : ∀ x ∈ part, IsOwn x) (hpart : part <:+: small) :
    ∃ piece, piece <:+: text ∧ piece.map asciiLower = part := by
  induction text generalizing small with
  | nil =>
    cases h
    exact absurd (List.infix_nil.1 hpart) hne
  | cons c text ih =>
    obtain ⟨piece, rest, rfl, hrest, hpiece⟩ := h.exists_piece
    have hbehind : part <:+: rest →
        ∃ piece, piece <:+: c :: text ∧ piece.map asciiLower = part := by
      intro hpart
      obtain ⟨piece, hinfix, rfl⟩ := ih hrest hpart
      exact ⟨piece, List.infix_cons hinfix, rfl⟩
    rcases hpiece with ⟨-, rfl⟩ | ⟨-, -, hforeign⟩
    · rcases List.infix_cons_iff.1 hpart with hpart | hpart
      · -- Found at the front of the small form, so at the front of the text.
        obtain ⟨piece, hprefix, rfl⟩ := h.exists_prefix hown hpart
        exact ⟨piece, hprefix.isInfix, rfl⟩
      · exact hbehind hpart
    · exact hbehind (infix_of_infix_append hne hown hforeign hpart)

theorem SmallForm.append {before behind : List Char} (h : SmallForm (before ++ behind) small) :
    ∃ front rest, small = front ++ rest ∧ SmallForm behind rest := by
  induction before generalizing small with
  | nil => exact ⟨[], small, rfl, h⟩
  | cons c before ih =>
    obtain ⟨piece, rest, rfl, hrest, -⟩ := h.exists_piece
    obtain ⟨front, rest, rfl, hbehind⟩ := ih hrest
    exact ⟨piece ++ front, rest, (List.append_assoc _ _ _).symm, hbehind⟩

theorem SmallForm.of_piece {piece behind : List Char} (h : SmallForm (piece ++ behind) small)
    (hown : ∀ x ∈ piece.map asciiLower, IsOwn x) : piece.map asciiLower <+: small := by
  induction piece generalizing small with
  | nil => exact List.nil_prefix
  | cons c piece ih =>
    rw [List.map_cons, List.forall_mem_cons] at hown
    obtain ⟨first, rest, rfl, hrest, hfirst⟩ := h.exists_piece
    have hc := ascii_of_isOwn hown.1
    rcases hfirst with ⟨-, rfl⟩ | ⟨hforeign, -⟩
    · exact List.cons_prefix_cons.2 ⟨rfl, ih hrest hown.2⟩
    · omega

/-- A small form holds a pattern of ASCII characters other than i and k just where its text holds
it up to capital ASCII letters. -/
theorem SmallForm.infix_iff (h : SmallForm text small) (hne : part ≠ [])
    (hown : ∀ x ∈ part, IsOwn x) :
    part <:+: small ↔ ∃ piece, piece <:+: text ∧ piece.map asciiLower = part := by
  constructor
  · exact h.exists_infix hne hown
  · rintro ⟨piece, ⟨before, behind, rfl⟩, rfl⟩
    rw [List.append_assoc] at h
    obtain ⟨front, rest, rfl, hrest⟩ := h.append
    exact (hrest.of_piece hown).isInfix.trans (List.suffix_append front rest).isInfix

end Find

end SchemaCatalog.Text.LetterCase
