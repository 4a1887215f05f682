import SchemaCatalog.Proofs.Json.Literals
import SchemaCatalog.Yaml.Scalar.Plain
import SchemaCatalog.Yaml.Scalar.Quoted

/-!
# SchemaCatalog.Proofs.Yaml.Scalar

JSON strings and whole numbers as scalars of a YAML flow collection.

Every escape of a JSON string means the same in YAML (`step?_escapeChar`), and it leaves no line
break and no tab as it is, so the string stays on its line and nothing in it is folded. Only its
spaces are kept back until something follows them, which is why the induction goes over the gap
before the rest of the text (`read?_escaped`). A number ends where the punctuation of the
collection begins, with a line break between them or not (`Plain.scalar?_written`).
-/

namespace SchemaCatalog.Yaml

open Text
open Json.Writer (escapeChar)

namespace Place

theorem forward_forward (p : Place) (m n : Nat) :
    (p.forward m).forward n = p.forward (m + n) := by
  simp only [forward, List.drop_drop, Nat.add_assoc]

theorem rest_forward_append {p : Place} {cs rest : List Char} (h : p.rest = cs ++ rest) :
    (p.forward cs.length).rest = rest := by
  rw [rest_forward, h, List.drop_left]

/-- Nothing is passed where no blank stands. -/
theorem past_of_cons {p : Place} {c : Char} {rest : List Char} {test : Char → Bool}
    (h : p.rest = c :: rest) (hc : test c = false) : p.past test = p := by
  rw [past, h, List.takeWhile_cons_of_neg (by simp [hc])]
  rfl

theorem tail?_of_cons {p : Place} {c : Char} {rest : List Char} (h : p.rest = c :: rest)
    (hblank : isBlank c = false) (hc : c ≠ '#') : p.tail? = some p := by
  simp only [tail?, past_of_cons h hblank, h]
  split
  · rename_i heq
    cases heq
    exact absurd rfl hc
  · rfl

theorem tail?_of_nil {p : Place} (h : p.rest = []) : p.tail? = some p := by
  cases p
  cases h
  rfl

end Place

namespace Quoted

variable {single : Bool} {indent : Int} {gap : Gap} {fresh : Bool} {p : Place} {c : Char}
  {rest : List Char}

/-! ## One character -/

theorem read?_blank (h : p.rest = c :: rest) (hc : isBlank c = true) {next : Gap}
    (hgap : gap.afterBlank? c (decide ((p.column : Int) < indent)) = some next) :
    read? single indent gap fresh p = read? single indent next true (p.forward 1) := by
  cases p
  cases h
  rw [read?]
  simp only [hc, if_true, hgap]

section Content

variable (h : p.rest = c :: rest) (hblank : isBlank c = false) (hbreak : isBreak c = false)
  (hadmits : admits indent p = true)
include h hblank hbreak hadmits

theorem read?_close (hstep : step? single c rest = some .close) :
    read? single indent gap fresh p = some (gap.text, p.forward 1) := by
  cases p
  cases h
  rw [read?]
  simp [hblank, hbreak, hstep, hadmits]

theorem read?_char {meant : Char} {count : Nat} (hcount : 0 < count)
    (hstep : step? single c rest = some (.char meant count)) :
    read? single indent gap fresh p =
      (read? single indent .none false (p.forward count)).map fun r =>
        (gap.text ++ meant :: r.1, r.2) := by
  cases p
  cases h
  rw [read?]
  simp only [hblank, hbreak, hstep, hadmits, Bool.false_eq_true, if_false, Bool.or_true, if_true,
    Nat.sub_add_cancel hcount]
  cases read? single indent .none false _ <;> rfl

end Content

/-! ## Escapes -/

theorem hexEscape?_control {n : Nat} (h : n < 0x20) (rest : List Char) :
    hexEscape? 4 ('0' :: '0' :: hexDigit (n / 16) :: hexDigit (n % 16) :: rest) =
      some (Char.ofNat n, 5) := by
  have hzero : hexDigit? '0' = some 0 := by decide
  have hscalar : isScalarValue n = true := by
    simp only [isScalarValue, Bool.or_eq_true, decide_eq_true_eq]
    omega
  have hchar : hexChar? ['0', '0', hexDigit (n / 16), hexDigit (n % 16)] =
      some (Char.ofNat n) := by
    simp [hexChar?, hzero, hexDigit?_hexDigit _ (show n / 16 < 16 by omega),
      hexDigit?_hexDigit _ (show n % 16 < 16 by omega), Nat.div_add_mod', hscalar]
  rw [hexEscape?, if_neg (by simp)]
  simp only [List.take_succ_cons, List.take_zero, hchar, Option.map_some]

/-- A character that is no space is one escape, or stands for itself. -/
theorem step?_escapeChar (hc : c ≠ ' ') (rest : List Char) :
    ∃ d more, escapeChar c = d :: more ∧ isBlank d = false ∧ isBreak d = false ∧
      step? false d (more ++ rest) = some (.char c (escapeChar c).length) := by
  unfold escapeChar
  split
  · subst c; exact ⟨_, _, rfl, rfl, rfl, rfl⟩
  split
  · subst c; exact ⟨_, _, rfl, rfl, rfl, rfl⟩
  split
  · subst c; exact ⟨_, _, rfl, rfl, rfl, rfl⟩
  split
  · subst c; exact ⟨_, _, rfl, rfl, rfl, rfl⟩
  split
  · subst c; exact ⟨_, _, rfl, rfl, rfl, rfl⟩
  split
  · subst c; exact ⟨_, _, rfl, rfl, rfl, rfl⟩
  split
  · subst c; exact ⟨_, _, rfl, rfl, rfl, rfl⟩
  split
  · rename_i h
    refine ⟨_, _, rfl, rfl, rfl, ?_⟩
    have hescape := hexEscape?_control h rest
    rw [Char.ofNat_toNat] at hescape
    simp [step?, isBreak, escape?, hescape]
  · rename_i hquote hback _ _ hnewline hreturn htab h
    refine ⟨c, [], rfl, ?_, ?_, ?_⟩
    · simp [isBlank, hc, htab]
    · simp [isBreak, hnewline, hreturn]
    · simp [step?, hquote, hback]

/-! ## Texts -/

/-- The gaps inside a line. -/
inductive Gap.InLine : Gap → Prop
  | none : InLine .none
  | blanks (text : List Char) : InLine (.blanks text)

theorem Gap.InLine.afterBlank? (h : gap.InLine) (underIndented : Bool) :
    ∃ next : Gap, gap.afterBlank? ' ' underIndented = some next ∧ next.InLine ∧
      next.text = gap.text ++ [' '] := by
  cases h with
  | none => exact ⟨_, rfl, .blanks _, rfl⟩
  | blanks text => exact ⟨_, rfl, .blanks _, rfl⟩

theorem admits_of_column (hcolumn : 0 < p.column) (hindent : indent ≤ 0) :
    admits indent p = true := by
  simp only [admits, Bool.and_eq_true, Bool.not_eq_true', Bool.and_eq_false_iff,
    decide_eq_false_iff_not, decide_eq_true_eq]
  omega

/-- An escaped text is read up to its closing quote, and stays on its line. -/
theorem read?_escaped {text tail : List Char} (hgap : gap.InLine) (hindent : indent ≤ 0)
    (hp : p.rest = text.flatMap escapeChar ++ '"' :: tail) (hcolumn : 0 < p.column) :
    read? false indent gap fresh p =
      some (gap.text ++ text, p.forward ((text.flatMap escapeChar).length + 1)) := by
  induction text generalizing gap fresh p with
  | nil =>
    rw [read?_close hp rfl rfl (admits_of_column hcolumn hindent) rfl, List.append_nil]
    rfl
  | cons c text ih =>
    rw [List.flatMap_cons, List.append_assoc] at hp
    have hnext := Place.rest_forward_append hp
    have hcolumn' : 0 < (p.forward (escapeChar c).length).column := Nat.add_pos_left hcolumn _
    have hlength : (p.forward (escapeChar c).length).forward
        ((text.flatMap escapeChar).length + 1) =
          p.forward (((c :: text).flatMap escapeChar).length + 1) := by
      rw [Place.forward_forward, List.flatMap_cons, List.length_append, Nat.add_assoc]
    by_cases hc : c = ' '
    · subst hc
      obtain ⟨next, hafter, hnextgap, htext⟩ :=
        hgap.afterBlank? (decide ((p.column : Int) < indent))
      rw [read?_blank hp rfl hafter]
      exact (ih hnextgap hnext hcolumn').trans (by rw [hlength, htext, List.append_assoc]; rfl)
    · obtain ⟨d, more, hescape, hblank, hbreak, hstep⟩ :=
        step?_escapeChar hc (text.flatMap escapeChar ++ '"' :: tail)
      rw [hescape, List.cons_append] at hp
      rw [read?_char hp hblank hbreak (admits_of_column hcolumn hindent) (by simp [hescape]) hstep,
        ih .none hnext hcolumn', hlength]
      rfl

/-- What may follow a scalar of a flow mapping: a colon, a comma, a bracket, or the end of its
line. -/
def Follows (d : Char) : Prop := d = ':' ∨ d = ',' ∨ d = '\x7d' ∨ d = '\n'

theorem scalar?_written {s : String} {d : Char} {tail : List Char} (hindent : indent ≤ 0)
    (hp : p.rest = Json.Writer.string (some s) ++ d :: tail) (hd : Follows d) :
    scalar? false true indent p =
      some (s, p.forward (Json.Writer.string (some s)).length) := by
  have hlength : (p.forward 1).forward ((s.toList.flatMap escapeChar).length + 1) =
      p.forward (Json.Writer.string (some s)).length := by
    rw [Place.forward_forward, Json.Writer.string]
    simp [Nat.add_comm]
  have hbehind : (p.forward 1).rest = s.toList.flatMap escapeChar ++ '"' :: d :: tail := by
    rw [Place.rest_forward, hp, Json.Writer.string]
    simp
  have hend := Place.rest_forward_append hp
  have htail : (p.forward (Json.Writer.string (some s)).length).tail? =
      some (p.forward (Json.Writer.string (some s)).length) := by
    rcases hd with rfl | rfl | rfl | rfl <;> exact Place.tail?_of_cons hend rfl (by decide)
  have hmayEnd : mayEnd true p.line (p.forward (Json.Writer.string (some s)).length) = true := by
    rw [mayEnd, hend]
    rcases hd with rfl | rfl | rfl | rfl <;> simp [isBreak]
  rw [scalar?, read?_escaped (.blanks []) hindent hbehind (Nat.succ_pos _), hlength]
  simp [htail, hmayEnd, Gap.text]

end Quoted

namespace Plain

variable {indent : Int} {gap : Gap} {p : Place} {c : Char} {rest : List Char}

theorem ne_of_isDigit {d : Char} (hc : isDigit c = true) (hd : isDigit d = false) : c ≠ d := by
  rintro rfl
  rw [hc] at hd
  cases hd

theorem not_special_of_isDigit (hc : isDigit c = true) :
    isBlank c = false ∧ isBreak c = false ∧ isFlow c = false := by
  have hne := fun d => ne_of_isDigit (d := d) hc
  refine ⟨?_, ?_, ?_⟩
  · simp [isBlank, hne ' ' rfl, hne '\t' rfl]
  · simp [isBreak, hne '\n' rfl, hne '\r' rfl]
  · simp [isFlow, hne ',' rfl, hne '[' rfl, hne ']' rfl, hne '\x7b' rfl, hne '\x7d' rfl]

theorem atDocumentMark_of_ne (rest : List Char) (hhyphen : c ≠ '-') (hpoint : c ≠ '.') :
    atDocumentMark (c :: rest) = false := by
  simp [atDocumentMark, atDocumentStart, atDocumentEnd, hhyphen, hpoint]

/-- A digit goes on with a scalar. -/
theorem read?_digit (h : p.rest = c :: rest) (hc : isDigit c = true) :
    read? true indent gap p = (read? true indent .none (p.forward 1)).map fun r =>
      (gap.text ++ c :: r.1, r.2) := by
  obtain ⟨hblank, hbreak, hflow⟩ := not_special_of_isDigit hc
  have hne := fun d => ne_of_isDigit (d := d) hc
  have hmark := atDocumentMark_of_ne rest (hne '-' rfl) (hne '.' rfl)
  have hends : endsAfterGap gap c rest = false := by
    simp [endsAfterGap, hmark, hne '#' rfl]
  have hcontinues : continues true c rest = true := by
    simp [continues, hne ':' rfl, hflow]
  cases p
  cases h
  rw [read?]
  simp only [hblank, hbreak, hends, hcontinues, hne '-' rfl, Bool.false_eq_true, if_false, if_true,
    false_and, and_false, Bool.true_eq_false]
  cases read? true indent .none _ <;> rfl

/-- The punctuation of a collection ends a scalar, and what stands before it on its line or on
the line above is left out. -/
theorem read?_flow (indent : Int) (gap : Gap) {blanks : List Char}
    (hblanks : ∀ b ∈ blanks, b = ' ' ∨ b = '\n') (hp : p.rest = blanks ++ c :: rest)
    (hc : c = ',' ∨ c = '\x7d') :
    ∃ last q, read? true indent gap p = some ([], last, q) ∧ q.rest = c :: rest := by
  induction blanks generalizing gap p with
  | nil =>
    refine ⟨gap, p, ?_, hp⟩
    have hends : endsAfterGap gap c rest = false := by
      rcases hc with rfl | rfl <;> simp [endsAfterGap, atDocumentMark_of_ne]
    cases p
    cases hp
    rw [read?]
    rcases hc with rfl | rfl <;> simp [isBlank, isBreak, hends, continues, isFlow]
  | cons b blanks ih =>
    obtain ⟨hb, hrest⟩ := List.forall_mem_cons.1 hblanks
    rcases hb with rfl | rfl
    · obtain ⟨last, q, hread, hq⟩ := ih (gap.afterBlank ' ') (p := p.forward 1) hrest
        (by rw [Place.rest_forward, hp]; rfl)
      refine ⟨last, q, ?_, hq⟩
      rw [← hread]
      cases p
      cases hp
      rw [read?]
      simp [isBlank]
    · obtain ⟨last, q, hread, hq⟩ := ih gap.afterBreak (p := p.newline) hrest
        (by simp [Place.newline, hp])
      refine ⟨last, q, ?_, hq⟩
      rw [← hread]
      cases p
      cases hp
      rw [read?]
      simp [isBlank, isBreak]

theorem read?_digits (indent : Int) (gap : Gap) {digits blanks : List Char}
    (hdigits : ∀ d ∈ digits, isDigit d = true) (hblanks : ∀ b ∈ blanks, b = ' ' ∨ b = '\n')
    (hp : p.rest = digits ++ (blanks ++ c :: rest)) (hc : c = ',' ∨ c = '\x7d') :
    ∃ text last q, read? true indent gap p = some (text, last, q) ∧ q.rest = c :: rest ∧
      (gap.text = [] → text = digits) := by
  induction digits generalizing gap p with
  | nil =>
    obtain ⟨last, q, hread, hq⟩ := read?_flow indent gap hblanks hp hc
    exact ⟨[], last, q, hread, hq, fun _ => rfl⟩
  | cons d digits ih =>
    obtain ⟨hd, hdigits⟩ := List.forall_mem_cons.1 hdigits
    obtain ⟨text, last, q, hread, hq, htext⟩ := ih .none (p := p.forward 1) hdigits
      (by rw [Place.rest_forward, hp]; rfl)
    refine ⟨gap.text ++ d :: text, last, q, ?_, hq, fun hgap => ?_⟩
    · rw [read?_digit hp hd, hread]
      rfl
    · rw [hgap, htext rfl, List.nil_append]

theorem scalar?_written (fresh : Bool) {n : Nat} {blanks : List Char}
    (hblanks : ∀ b ∈ blanks, b = ' ' ∨ b = '\n')
    (hp : p.rest = Json.Writer.digits n ++ (blanks ++ c :: rest)) (hc : c = ',' ∨ c = '\x7d')
    (hindent : indent ≤ 0) :
    ∃ fresh' q, scalar? true fresh indent p =
      some (String.ofList (Json.Writer.digits n), fresh', q) ∧ q.rest = c :: rest := by
  obtain ⟨text, last, q, hread, hq, htext⟩ := read?_digits indent
    (.start fresh) (List.all_eq_true.1 (Json.Reader.all_digits n)) hblanks hp hc
  have hne : Json.Writer.digits n ≠ [] := by
    rcases Json.Reader.digits_cases n with ⟨_, h⟩ | ⟨d, more, h, _⟩ <;> simp [h]
  refine ⟨last.isFresh, q, ?_, hq⟩
  have hcolumn : ¬ (p.column : Int) < indent := by omega
  rw [scalar?, hread, htext rfl]
  simp [hne, hcolumn]

end Plain

end SchemaCatalog.Yaml
