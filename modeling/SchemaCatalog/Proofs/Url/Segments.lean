import Mathlib.Data.List.DropRight
import SchemaCatalog.Proofs.Url.Percent
import SchemaCatalog.Url

/-!
# SchemaCatalog.Proofs.Url.Segments

Paths as segments: splitting at slashes, resolving dots and dropping slashes at the end.

Segments without dots are kept in order whatever follows them (`resolveDots_append`), and of a path
with dots at least the last segment is known (`resolveDots_concat`). Slashes at the end of a
text are empty segments at the end of its path (`rdropWhile_flatMap_slash`).
-/

namespace SchemaCatalog.Url

/-! ## Splitting -/

theorem splitOn_slash_cons (rest : List Char) :
    ('/' :: rest).splitOn '/' = [] :: rest.splitOn '/' := by
  rw [List.splitOn_cons_eq_if_modifyHead, if_pos (beq_self_eq_true _)]

theorem splitOn_cons_of_ne {c : Char} {rest part : List Char} {others : List (List Char)}
    (hc : c ≠ '/') (hrest : rest.splitOn '/' = part :: others) :
    (c :: rest).splitOn '/' = (c :: part) :: others := by
  rw [List.splitOn_cons_eq_if_modifyHead, if_neg (mt beq_iff_eq.1 hc), hrest]
  rfl

theorem exists_splitOn_cons (cs : List Char) :
    ∃ part others, cs.splitOn '/' = part :: others :=
  List.exists_cons_of_ne_nil (List.splitOn_ne_nil _ _)

theorem flatMap_splitOn (cs : List Char) : (cs.splitOn '/').flatMap ('/' :: ·) = '/' :: cs := by
  induction cs with
  | nil => rfl
  | cons c rest ih =>
    by_cases hc : c = '/'
    · subst hc
      rw [splitOn_slash_cons, List.flatMap_cons, ih]
      rfl
    · obtain ⟨part, others, hrest⟩ := exists_splitOn_cons rest
      rw [hrest, List.flatMap_cons, List.cons_append, List.cons.injEq] at ih
      simp only [splitOn_cons_of_ne hc hrest, List.flatMap_cons, List.cons_append, ih.2]

theorem not_mem_of_mem_splitOn {cs part : List Char} (h : part ∈ cs.splitOn '/') : '/' ∉ part := by
  induction cs generalizing part with
  | nil =>
    rw [List.splitOn_nil, List.mem_singleton] at h
    subst h
    exact List.not_mem_nil
  | cons c rest ih =>
    by_cases hc : c = '/'
    · subst hc
      rw [splitOn_slash_cons] at h
      rcases List.mem_cons.1 h with rfl | h
      · exact List.not_mem_nil
      · exact ih h
    · obtain ⟨first, others, hrest⟩ := exists_splitOn_cons rest
      rw [splitOn_cons_of_ne hc hrest] at h
      rw [hrest] at ih
      rcases List.mem_cons.1 h with rfl | h
      · have hfirst := ih List.mem_cons_self
        simp only [List.mem_cons, not_or]
        exact ⟨fun e => hc e.symm, hfirst⟩
      · exact ih (List.mem_cons_of_mem _ h)

theorem splitOn_flatMap_append {segments : List (List Char)} (h : ∀ s ∈ segments, '/' ∉ s)
    (rest : List Char) :
    (segments.flatMap (· ++ ['/']) ++ rest).splitOn '/' = segments ++ rest.splitOn '/' := by
  induction segments with
  | nil => rfl
  | cons segment others ih =>
    obtain ⟨hsegment, hothers⟩ := List.forall_mem_cons.1 h
    rw [List.flatMap_cons, List.append_assoc, List.append_assoc, List.singleton_append,
      List.splitOn_append_cons_self_of_not_mem hsegment, ih hothers]
    rfl

/-- Slashes before the segments are slashes behind them, but for the first and the last one. -/
theorem flatMap_slash_append (segments : List (List Char)) (rest : List Char) :
    segments.flatMap ('/' :: ·) ++ '/' :: rest =
      '/' :: (segments.flatMap (· ++ ['/']) ++ rest) := by
  induction segments with
  | nil => rfl
  | cons segment others ih =>
    rw [List.flatMap_cons, List.append_assoc, ih, List.flatMap_cons, List.append_assoc,
      List.append_assoc]
    rfl

/-- The last part of a text is the end of the text. -/
theorem exists_splitOn_concat (cs : List Char) :
    ∃ parts last, cs.splitOn '/' = parts ++ [last] ∧ last <:+ cs := by
  induction cs with
  | nil => exact ⟨[], [], rfl, List.suffix_refl _⟩
  | cons c rest ih =>
    obtain ⟨parts, last, hsplit, hlast⟩ := ih
    by_cases hc : c = '/'
    · subst hc
      rw [splitOn_slash_cons, hsplit]
      exact ⟨[] :: parts, last, rfl, hlast.trans (List.suffix_cons _ _)⟩
    · cases parts with
      | nil =>
        -- The only part of `rest` is all of it.
        have hall := flatMap_splitOn rest
        rw [hsplit, List.nil_append, List.flatMap_singleton, List.cons.injEq] at hall
        exact ⟨[], c :: last, splitOn_cons_of_ne hc hsplit, hall.2 ▸ List.suffix_refl _⟩
      | cons part parts =>
        exact ⟨(c :: part) :: parts, last, splitOn_cons_of_ne hc hsplit,
          hlast.trans (List.suffix_cons _ _)⟩

/-! ## Dots -/

/-- Whether a segment says where to go instead of naming a place. -/
def isDots (segment : List Char) : Bool := isSingleDot segment || isDoubleDot segment

theorem plainDots_of_not_mem {cs : List Char} (h : '%' ∉ cs) : plainDots cs = cs := by
  induction cs with
  | nil => rfl
  | cons c rest ih =>
    rw [List.mem_cons, not_or] at h
    rw [plainDots, ih h.2]
    all_goals
      intro more heq
      exact absurd heq.symm h.1

theorem isDots_of_not_mem {cs : List Char} (hpercent : '%' ∉ cs) (hdot : '.' ∉ cs) :
    isDots cs = false := by
  rw [isDots, isSingleDot, isDoubleDot, plainDots_of_not_mem hpercent, Bool.or_eq_false_iff,
    decide_eq_false_iff_not, decide_eq_false_iff_not]
  constructor <;> rintro rfl <;> exact hdot List.mem_cons_self

/-- A segment as it stands in a path. -/
def encodedSegment (segment : List Char) : String := String.ofList (percentEncode inPath segment)

theorem resolveDots_cons {segment : List Char} (h : isDots segment = false) (before : List String)
    (rest : List (List Char)) :
    resolveDots before (segment :: rest) =
      resolveDots (before ++ [encodedSegment segment]) rest := by
  rw [isDots, Bool.or_eq_false_iff] at h
  rw [resolveDots, h.1, h.2]
  rfl

theorem resolveDots_append {plain : List (List Char)} (h : ∀ s ∈ plain, isDots s = false)
    (before : List String) (rest : List (List Char)) :
    resolveDots before (plain ++ rest) =
      resolveDots (before ++ plain.map encodedSegment) rest := by
  induction plain generalizing before with
  | nil => rw [List.map_nil, List.append_nil, List.nil_append]
  | cons segment others ih =>
    obtain ⟨hsegment, hothers⟩ := List.forall_mem_cons.1 h
    rw [List.cons_append, resolveDots_cons hsegment, ih hothers, List.append_assoc,
      List.singleton_append, List.map_cons]

/-- Whatever the segments before are, the last one is at the end, or leaves a slash there. -/
theorem resolveDots_concat (before : List String) (segments : List (List Char))
    (last : List Char) : ∃ front, resolveDots before (segments ++ [last]) =
      front ++ [if isDots last then "" else encodedSegment last] := by
  induction segments generalizing before with
  | nil =>
    rw [List.nil_append, resolveDots, isDots]
    cases isDoubleDot last <;> cases isSingleDot last <;> exact ⟨_, rfl⟩
  | cons segment others ih =>
    rw [List.cons_append, resolveDots]
    split
    · exact ih _
    · split <;> exact ih _

/-! ## Slashes at the end -/

theorem encodedSegment_eq_empty_iff (segment : List Char) :
    encodedSegment segment = "" ↔ segment = [] := by
  constructor
  · intro h
    cases segment with
    | nil => rfl
    | cons c rest =>
      have hnil : percentEncode inPath (c :: rest) = [] := by
        simpa [encodedSegment] using h
      cases hc : isKept c with
      | true => rw [percentEncode_cons_of_kept hc] at hnil; cases hnil
      | false =>
        obtain ⟨more, hmore⟩ := exists_percent_of_not_kept hc rest
        rw [hmore] at hnil
        cases hnil
  · rintro rfl
    rfl

theorem rdropWhile_map_encodedSegment (segments : List (List Char)) :
    (segments.map encodedSegment).rdropWhile (· = "") =
      (segments.rdropWhile (· = [])).map encodedSegment := by
  have hempty : (fun s : List Char => decide (encodedSegment s = "")) = fun s => decide (s = []) :=
    funext fun s => decide_eq_decide.2 (encodedSegment_eq_empty_iff s)
  rw [List.rdropWhile, ← List.map_reverse, List.dropWhile_map, ← List.map_reverse,
    List.rdropWhile]
  exact congrArg (fun p => ((segments.reverse.dropWhile p).reverse).map encodedSegment) hempty

theorem rdropWhile_flatMap_slash {segments : List (List Char)} (h : ∀ s ∈ segments, '/' ∉ s) :
    (segments.flatMap ('/' :: ·)).rdropWhile (· = '/') =
      (segments.rdropWhile (· = [])).flatMap ('/' :: ·) := by
  induction segments using List.reverseRecOn with
  | nil => rfl
  | append_singleton segments segment ih =>
    rw [List.flatMap_append, List.flatMap_singleton]
    by_cases hempty : segment = []
    · subst hempty
      rw [List.rdropWhile_concat_pos _ _ _ (by decide),
        List.rdropWhile_concat_pos _ _ _ (by decide)]
      exact ih fun s hs => h s (List.mem_append_left _ hs)
    · obtain ⟨init, c, rfl⟩ := List.eq_nil_or_concat' segment |>.resolve_left hempty
      have hc : c ≠ '/' := by
        rintro rfl
        exact h (init ++ ['/']) (by simp) (by simp)
      have hend : segments.flatMap ('/' :: ·) ++ '/' :: (init ++ [c]) =
          (segments.flatMap ('/' :: ·) ++ '/' :: init) ++ [c] := by simp
      rw [List.rdropWhile_concat_neg _ segments _ (by simp), List.flatMap_append,
        List.flatMap_singleton, hend, List.rdropWhile_concat_neg _ _ _ (by simpa using hc)]

end SchemaCatalog.Url
