import SchemaCatalog.Config
import SchemaCatalog.Proofs.Url.Segments

/-!
# SchemaCatalog.Proofs.Url.Base

Which URL a base URL and a path behind it make.

An http text is a front (scheme, slashes and authority) and what stands behind it, and what is
read of the front does not depend on the rest (`Front.read_append`). So a base URL that lost the
slashes at its end and got further segments keeps its scheme, its host and its own segments
(`IsBase.parse?_append`). The last piece need not be a segment: it may hold slashes, dots, a
question mark, blanks. `isSegment_iff` says which texts arrive as the one segment that stands for
them, and there are no others.
-/

namespace SchemaCatalog.Url

open Text.Utf8 (bytes)
open Text.LetterCase (asciiLower)

/-! ## Characters that do not count -/

/-- The end of a text as it is read: without blanks behind it, and without tabs and line ends. -/
def tidied (cs : List Char) : List Char :=
  (cs.rdropWhile fun c => c.toNat ≤ 0x20).filter fun c => !(['\t', '\n', '\r'].contains c)

theorem tidied_sublist (cs : List Char) : (tidied cs).Sublist cs :=
  List.filter_sublist.trans (List.rdropWhile_prefix _ _).sublist

theorem rdropWhile_blank_eq_self_iff (cs : List Char) :
    cs.rdropWhile (fun c => decide (c.toNat ≤ 0x20)) = cs ↔ ∀ c ∈ cs.getLast?, 0x20 < c.toNat := by
  rw [List.rdropWhile_eq_self_iff]
  constructor
  · intro h c hc
    obtain ⟨hne, rfl⟩ := List.mem_getLast?_eq_getLast hc
    simpa using h hne
  · intro h hne
    simpa using h _ (List.getLast?_eq_some_getLast hne)

theorem tidied_eq_self_iff (cs : List Char) : tidied cs = cs ↔
    (∀ c ∈ cs, c ∉ ['\t', '\n', '\r']) ∧ ∀ c ∈ cs.getLast?, 0x20 < c.toNat := by
  constructor
  · intro h
    have hend : cs.rdropWhile (fun c => decide (c.toNat ≤ 0x20)) = cs := by
      refine (List.rdropWhile_prefix _ _).eq_of_length_le ?_
      have hlength := List.length_filter_le (fun c => !(['\t', '\n', '\r'].contains c))
        (cs.rdropWhile fun c => c.toNat ≤ 0x20)
      rwa [← tidied, h] at hlength
    rw [tidied, hend, List.filter_eq_self] at h
    exact ⟨fun c hc => by simpa using h c hc, (rdropWhile_blank_eq_self_iff cs).1 hend⟩
  · rintro ⟨hplain, hlast⟩
    rw [tidied, (rdropWhile_blank_eq_self_iff cs).2 hlast, List.filter_eq_self]
    exact fun c hc => by simpa using hplain c hc

theorem rdropWhile_append_of_kept {α : Type} {p : α → Bool} {front : List α}
    (hfront : front.rdropWhile p = front) (l : List α) :
    (front ++ l).rdropWhile p = front ++ l.rdropWhile p := by
  rw [List.rdropWhile, List.reverse_append, List.dropWhile_append]
  split
  · rename_i hall
    rw [← List.rdropWhile, hfront, List.rdropWhile, List.isEmpty_iff.1 hall]
    exact (List.append_nil front).symm
  · rw [List.reverse_append, List.reverse_reverse]
    rfl

/-- A front that counts as it is stays as it is. -/
theorem cleaned_append {front : List Char} (hne : front ≠ [])
    (hplain : ∀ c ∈ front, c ∉ ['\t', '\n', '\r']) (hfirst : ∀ c ∈ front.head?, 0x20 < c.toNat)
    (hlast : ∀ c ∈ front.getLast?, 0x20 < c.toNat) (cs : List Char) :
    cleaned (front ++ cs) = front ++ tidied cs := by
  have hstart : (front ++ cs).dropWhile (fun c => decide (c.toNat ≤ 0x20)) = front ++ cs := by
    cases front with
    | nil => exact absurd rfl hne
    | cons c rest =>
      have hc := hfirst c rfl
      rw [List.cons_append, List.dropWhile_cons_of_neg (by simpa using hc)]
  have hend := rdropWhile_append_of_kept ((rdropWhile_blank_eq_self_iff front).2 hlast) cs
  have hkept : front.filter (fun c => !(['\t', '\n', '\r'].contains c)) = front :=
    List.filter_eq_self.2 fun c hc => by simpa using hplain c hc
  rw [List.rdropWhile] at hend
  rw [cleaned, hstart, hend, List.filter_append, hkept, tidied]

/-! ## Queries and fragments -/

theorem splitTail_append {front : List Char} (h : ∀ c ∈ front, c ≠ '?' ∧ c ≠ '#')
    (cs : List Char) : splitTail (front ++ cs) = (front ++ (splitTail cs).1, (splitTail cs).2) := by
  rw [splitTail, splitTail]
  simp only
  rw [List.takeWhile_append_of_pos fun c hc => by simpa using (h c hc).2,
    List.takeWhile_append_of_pos fun c hc => by simpa using (h c hc).1, List.length_append,
    List.length_append, List.drop_length_add_append, List.drop_length_add_append]

theorem splitTail_fst_starts (cs : List Char) : (splitTail cs).1 <+: cs :=
  (List.takeWhile_prefix _).trans (List.takeWhile_prefix _)

theorem not_mem_splitTail_fst {cs : List Char} {c : Char} (h : c ∈ (splitTail cs).1) :
    c ≠ '?' ∧ c ≠ '#' := by
  have hquery := List.mem_takeWhile_imp h
  have hfragment := List.mem_takeWhile_imp ((List.takeWhile_prefix _).mem h)
  simp only [decide_eq_true_eq] at hquery hfragment
  exact ⟨hquery, hfragment⟩

theorem splitTail_of_plain {cs : List Char} (h : ∀ c ∈ cs, c ≠ '?' ∧ c ≠ '#') :
    splitTail cs = (cs, none, none) := by
  have happend := splitTail_append h []
  rw [List.append_nil] at happend
  exact happend.trans (by rw [splitTail]; simp)

/-- A text without query and fragment is its path. -/
theorem splitTail_fst_of_none {cs : List Char} (hquery : (splitTail cs).2.1 = none)
    (hfragment : (splitTail cs).2.2 = none) : (splitTail cs).1 = cs := by
  have hwhole : ∀ (p : Char → Bool) (l : List Char), l.drop (l.takeWhile p).length = [] →
      l.takeWhile p = l :=
    fun p l h => (List.takeWhile_prefix p).eq_of_length_le (List.drop_eq_nil_iff.1 h)
  rw [splitTail] at hquery hfragment ⊢
  simp only at hquery hfragment ⊢
  split at hfragment
  · cases hfragment
  · rename_i hnoFragment
    rw [hwhole _ _ hnoFragment] at hquery ⊢
    split at hquery
    · cases hquery
    · rename_i hnoQuery
      exact hwhole _ _ hnoQuery

/-! ## Fronts of http texts -/

theorem isSlash_http (c : Char) : isSlash "http" c = true ↔ c = '/' ∨ c = '\\' := by
  have hspecial : isSpecial "http" = true := by decide
  simp [isSlash, hspecial]

theorem ofScheme?_http (rest : List Char) : ofScheme? "http" rest =
    let body := (splitTail rest).1.dropWhile (isSlash "http")
    let authority := body.takeWhile fun c => !isSlash "http" c
    (authority? "http" authority).map fun a =>
      ⟨"http", a.username, a.password, some a.host, a.port,
        .segments (hierarchy "http" (body.drop authority.length)),
        (splitTail rest).2.1.map (encodedQuery "http"),
        (splitTail rest).2.2.map encodedFragment⟩ := by
  have hfile : ("http" : String) ≠ "file" := by decide
  have hspecial : isSpecial "http" = true := by decide
  simp only [ofScheme?, hfile, hspecial, if_false, if_true]

/-- What stands before the path of an http text, and what is read there. -/
structure Front where
  name : List Char
  lead : List Char
  authority : List Char
  read : Authority
  name_alpha : ∃ c ∈ name.head?, isAlpha c = true
  name_chars : ∀ c ∈ name, isSchemeChar c = true
  name_http : String.ofList (name.map asciiLower) = "http"
  lead_slash : ∀ c ∈ lead, c = '/'
  authority_ne_nil : authority ≠ []
  authority_chars : ∀ c ∈ authority, c ∉ ['/', '\\', '?', '#']
  authority_read : authority? "http" authority = some read

namespace Front

def text (f : Front) : List Char := f.name ++ ':' :: (f.lead ++ f.authority)

/-- The URL of a front with a path, a query and a fragment. -/
def url (f : Front) (path : List Char) (query fragment : Option (List Char)) : Url :=
  ⟨"http", f.read.username, f.read.password, some f.read.host, f.read.port,
    .segments (hierarchy "http" path), query.map (encodedQuery "http"),
    fragment.map encodedFragment⟩

theorem scheme?_append (f : Front) (cs : List Char) :
    scheme? (f.text ++ cs) = some ("http", f.lead ++ f.authority ++ cs) := by
  obtain ⟨first, hfirst, halpha⟩ := f.name_alpha
  have htext : f.text ++ cs = f.name ++ ':' :: (f.lead ++ f.authority ++ cs) := by
    simp [text]
  have hcolon : isSchemeChar ':' = false := by decide
  have hname : (f.text ++ cs).takeWhile isSchemeChar = f.name := by
    rw [htext, List.takeWhile_append_of_pos f.name_chars,
      List.takeWhile_cons_of_neg (by simp [hcolon]), List.append_nil]
  obtain ⟨rest, hrest⟩ : ∃ rest, f.name = first :: rest := by
    cases h : f.name with
    | nil => rw [h] at hfirst; cases hfirst
    | cons c rest => rw [h] at hfirst; cases hfirst; exact ⟨rest, rfl⟩
  rw [scheme?, hname, htext, List.drop_left, ← f.name_http, hrest]
  simp only [halpha, if_true]

theorem no_tail (f : Front) : ∀ c ∈ f.lead ++ f.authority, c ≠ '?' ∧ c ≠ '#' := by
  intro c hc
  rcases List.mem_append.1 hc with hc | hc
  · rw [f.lead_slash c hc]
    decide
  · have hchars := f.authority_chars c hc
    simp only [List.mem_cons, not_or] at hchars
    exact ⟨hchars.2.2.1, hchars.2.2.2.1⟩

/-- What is read of a front does not depend on what stands behind it. -/
theorem read_append (f : Front) {cs path : List Char} {query fragment : Option (List Char)}
    (htail : splitTail cs = (path, query, fragment)) (hpath : path = [] ∨ path.head? = some '/') :
    (scheme? (f.text ++ cs)).bind (fun (scheme, rest) => ofScheme? scheme rest) =
      some (f.url path query fragment) := by
  have hauthority : ∀ c ∈ f.authority, isSlash "http" c = false := by
    intro c hc
    have hchars := f.authority_chars c hc
    simp only [List.mem_cons, not_or] at hchars
    rw [Bool.eq_false_iff, Ne, isSlash_http, not_or]
    exact ⟨hchars.1, hchars.2.1⟩
  have hlead : (f.lead ++ f.authority ++ path).dropWhile (isSlash "http") =
      f.authority ++ path := by
    rw [List.append_assoc, List.dropWhile_append_of_pos fun c hc => by
      rw [f.lead_slash c hc, isSlash_http]; exact .inl rfl]
    cases h : f.authority with
    | nil => exact absurd h f.authority_ne_nil
    | cons c rest =>
      have hc := hauthority c (h ▸ List.mem_cons_self)
      rw [List.cons_append, List.dropWhile_cons_of_neg (by simp [hc])]
  have hend : (f.authority ++ path).takeWhile (fun c => !isSlash "http" c) = f.authority := by
    rw [List.takeWhile_append_of_pos fun c hc => by rw [hauthority c hc]; rfl]
    cases path with
    | nil => exact List.append_nil _
    | cons c rest =>
      rw [List.head?_cons, Option.some.injEq] at hpath
      have hc : isSlash "http" c = true := (isSlash_http c).2 (.inl (hpath.resolve_left (by simp)))
      rw [List.takeWhile_cons_of_neg (by simp [hc]), List.append_nil]
  rw [scheme?_append, Option.bind_some]
  simp only [ofScheme?_http, splitTail_append f.no_tail, htail, hlead, hend, f.authority_read,
    Option.map_some, List.drop_left]
  rfl

end Front

/-! ## Texts with a front -/

theorem scheme_of_ofScheme? {scheme : String} {rest : List Char} {u : Url}
    (h : ofScheme? scheme rest = some u) : u.scheme = scheme := by
  have hmap : ∀ {text : List Char} {make : Authority → Url}, (∀ a, (make a).scheme = scheme) →
      (authority? scheme text).map make = some u → u.scheme = scheme := by
    intro text make hmake h
    obtain ⟨a, _, rfl⟩ := Option.map_eq_some_iff.1 h
    exact hmake a
  rw [ofScheme?] at h
  simp only at h
  split at h
  · split at h
    · cases h; rfl
    · exact hmap (fun a => rfl) h
    · cases h; rfl
  · split at h
    · exact hmap (fun a => rfl) h
    · split at h
      · exact hmap (fun a => rfl) h
      · cases h; rfl
      · cases h; rfl

/-- The scheme of a text is what stands before its first colon. -/
theorem of_scheme? {cs rest : List Char} {scheme : String} (h : scheme? cs = some (scheme, rest)) :
    ∃ name, cs = name ++ ':' :: rest ∧ (∃ c ∈ name.head?, isAlpha c = true) ∧
      (∀ c ∈ name, isSchemeChar c = true) ∧ String.ofList (name.map asciiLower) = scheme := by
  rw [scheme?] at h
  split at h
  · rename_i name first others rest' hname hdrop
    split at h
    · rename_i halpha
      cases h
      refine ⟨cs.takeWhile isSchemeChar, ?_, ⟨first, by rw [hname]; rfl, halpha⟩,
        fun c hc => List.mem_takeWhile_imp hc, rfl⟩
      have hsplit := List.prefix_iff_eq_append.1 (List.takeWhile_prefix isSchemeChar (l := cs))
      rw [hdrop] at hsplit
      exact hsplit.symm
    · cases h
  · cases h

/-- The parts of what stands behind the colon of an http text: slashes, the authority, the path. -/
theorem exists_parts {body : List Char} (hchars : ∀ c ∈ body, c ≠ '\\' ∧ c ≠ '?' ∧ c ≠ '#') :
    ∃ lead authority path, body = lead ++ (authority ++ path) ∧ (∀ c ∈ lead, c = '/') ∧
      (∀ c ∈ authority, c ∉ ['/', '\\', '?', '#']) ∧ (path = [] ∨ path.head? = some '/') ∧
      (body.dropWhile (isSlash "http")).takeWhile (fun c => !isSlash "http" c) = authority := by
  have hslash : ∀ c ∈ body, isSlash "http" c = true ↔ c = '/' := fun c hc => by
    rw [isSlash_http, or_iff_left (hchars c hc).1]
  have hbehind : ∀ c ∈ body.dropWhile (isSlash "http"), c ∈ body := fun c hc =>
    (List.dropWhile_suffix _).mem hc
  refine ⟨body.takeWhile (isSlash "http"), _,
    (body.dropWhile (isSlash "http")).dropWhile fun c => !isSlash "http" c, ?_, ?_, ?_, ?_, rfl⟩
  · rw [List.takeWhile_append_dropWhile, List.takeWhile_append_dropWhile]
  · exact fun c hc => (hslash c ((List.takeWhile_prefix _).mem hc)).1 (List.mem_takeWhile_imp hc)
  · intro c hc
    have hmem := hbehind c ((List.takeWhile_prefix _).mem hc)
    have hno := List.mem_takeWhile_imp hc
    rw [Bool.not_eq_true', Bool.eq_false_iff, Ne, hslash c hmem] at hno
    simp [hno, hchars c hmem]
  · cases hpath : (body.dropWhile (isSlash "http")).dropWhile fun c => !isSlash "http" c with
    | nil => exact .inl rfl
    | cons c more =>
      have hmem := hbehind c ((List.dropWhile_suffix _).mem (hpath ▸ List.mem_cons_self))
      have hhead := List.head?_dropWhile_not (fun c => !isSlash "http" c)
        (body.dropWhile (isSlash "http"))
      rw [hpath, List.head?_cons] at hhead
      exact .inr (congrArg some ((hslash c hmem).1 (by simpa using hhead)))

/-- An http text without backslashes has a front. -/
theorem exists_front {cs : List Char} {u : Url}
    (h : (scheme? cs).bind (fun (scheme, rest) => ofScheme? scheme rest) = some u)
    (hhttp : u.scheme = "http") (hplain : '\\' ∉ cs) :
    ∃ (f : Front) (tail : List Char), cs = f.text ++ tail ∧
      ((splitTail tail).1 = [] ∨ (splitTail tail).1.head? = some '/') := by
  obtain ⟨⟨scheme, rest⟩, hscheme, hread⟩ := Option.bind_eq_some_iff.1 h
  obtain rfl : scheme = "http" := (scheme_of_ofScheme? hread).symm.trans hhttp
  obtain ⟨name, rfl, halpha, hname, hlower⟩ := of_scheme? hscheme
  obtain ⟨behind, hbehind⟩ := splitTail_fst_starts rest
  have hchars : ∀ c ∈ (splitTail rest).1, c ≠ '\\' ∧ c ≠ '?' ∧ c ≠ '#' := by
    intro c hc
    have hmem : c ∈ rest := hbehind ▸ List.mem_append_left _ hc
    refine ⟨?_, not_mem_splitTail_fst hc⟩
    rintro rfl
    exact hplain (List.mem_append_right _ (List.mem_cons_of_mem _ hmem))
  obtain ⟨lead, authority, path, hparts, hlead, hauthority, hpath, hread_authority⟩ :=
    exists_parts hchars
  simp only [ofScheme?_http] at hread
  obtain ⟨a, ha, _⟩ := Option.map_eq_some_iff.1 hread
  rw [hread_authority] at ha
  let f : Front := {
    name := name
    lead := lead
    authority := authority
    read := a
    name_alpha := halpha
    name_chars := hname
    name_http := hlower
    lead_slash := hlead
    authority_ne_nil := by
      rintro rfl
      have hnone : authority? "http" [] = none := by decide
      rw [hnone] at ha
      cases ha
    authority_chars := hauthority
    authority_read := ha }
  have hrest : lead ++ authority ++ (path ++ behind) = rest := by
    rw [← hbehind, hparts]
    simp
  refine ⟨f, path ++ behind, ?_, ?_⟩
  · rw [Front.text, ← hrest]
    simp [f]
  · -- The front has no query, so the path of the whole is the path of what stands behind it.
    have hsplit := splitTail_append f.no_tail (path ++ behind)
    rw [hrest, Prod.ext_iff, hparts, ← List.append_assoc] at hsplit
    rw [← List.append_cancel_left hsplit.1]
    exact hpath

/-! ## Plain segments -/

/-- Characters that end a segment or do not count. -/
def isBreak (c : Char) : Bool := ['/', '\\', '?', '#', '\t', '\n', '\r'].contains c

/-- A text that is a segment wherever other text follows it behind a slash. -/
structure IsPlain (segment : List Char) : Prop where
  chars : ∀ c ∈ segment, isBreak c = false
  noDots : isDots segment = false

instance (segment : List Char) : Decidable (IsPlain segment) :=
  decidable_of_iff ((segment.all fun c => !isBreak c) = true ∧ isDots segment = false)
    ⟨fun h => ⟨fun c hc => by simpa using List.all_eq_true.1 h.1 c hc, h.2⟩,
      fun h => ⟨List.all_eq_true.2 fun c hc => by rw [h.chars c hc]; rfl, h.noDots⟩⟩

theorem of_isBreak {c : Char} (h : isBreak c = false) :
    c ≠ '/' ∧ c ≠ '\\' ∧ c ≠ '?' ∧ c ≠ '#' ∧ c ∉ ['\t', '\n', '\r'] := by
  simpa [isBreak] using h

theorem segmentsOf_http (cs : List Char) :
    segmentsOf "http" cs = (cs.map fun c => if c = '\\' then '/' else c).splitOn '/' := by
  have hspecial : isSpecial "http" = true := by decide
  rw [segmentsOf, if_pos hspecial]

theorem map_slash_of_plain {cs : List Char} (h : '\\' ∉ cs) :
    (cs.map fun c => if c = '\\' then '/' else c) = cs := by
  have hsame : ∀ c ∈ cs, (if c = '\\' then '/' else c) = c := by
    intro c hc
    refine if_neg ?_
    rintro rfl
    exact h hc
  rw [List.map_congr_left hsame, List.map_id']

section Segments

variable {segments : List (List Char)} (h : ∀ s ∈ segments, IsPlain s)
include h

theorem mem_slashed {c : Char} (hc : c ∈ segments.flatMap ('/' :: ·) ++ ['/']) :
    c = '/' ∨ isBreak c = false := by
  rcases List.mem_append.1 hc with hc | hc
  · obtain ⟨s, hs, hc⟩ := List.mem_flatMap.1 hc
    rcases List.mem_cons.1 hc with rfl | hc
    · exact .inl rfl
    · exact .inr ((h s hs).chars c hc)
  · exact .inl (List.mem_singleton.1 hc)

/-- Plain segments stay, whatever stands behind them. -/
theorem hierarchy_append (cs : List Char) :
    hierarchy "http" (segments.flatMap ('/' :: ·) ++ '/' :: cs) =
      resolveDots (segments.map encodedSegment) (segmentsOf "http" cs) := by
  have hslash : isSlash "http" '/' = true := by decide
  have hplain : '\\' ∉ segments.flatMap (· ++ ['/']) := by
    intro hmem
    obtain ⟨s, hs, hc⟩ := List.mem_flatMap.1 hmem
    rcases List.mem_append.1 hc with hc | hc
    · exact absurd ((h s hs).chars _ hc) (by decide)
    · exact absurd hc (by decide)
  have hapart : ∀ s ∈ segments, '/' ∉ s := fun s hs hmem =>
    absurd ((h s hs).chars _ hmem) (by decide)
  rw [flatMap_slash_append, hierarchy, if_pos hslash, segmentsOf_http, segmentsOf_http,
    List.map_append, map_slash_of_plain hplain, splitOn_flatMap_append hapart,
    resolveDots_append fun s hs => (h s hs).noDots, List.nil_append]

end Segments

/-- A path without dots is its segments; slashes at its end are empty segments at the end. -/
theorem hierarchy_of_plain {path : List Char} (hpath : path = [] ∨ path.head? = some '/')
    (hchars : ∀ c ∈ path, c ≠ '/' → isBreak c = false)
    (hdots : ∀ s ∈ path.splitOn '/', isDots s = false) :
    ∃ segments : List (List Char), (∀ s ∈ segments, IsPlain s) ∧
      path.rdropWhile (· = '/') = segments.flatMap ('/' :: ·) ∧
      (hierarchy "http" path).rdropWhile (· = "") = segments.map encodedSegment := by
  have hslash : isSlash "http" '/' = true := by decide
  cases path with
  | nil =>
    refine ⟨[], fun s hs => absurd hs List.not_mem_nil, rfl, ?_⟩
    decide
  | cons c rest =>
    obtain rfl : c = '/' := by simpa using hpath
    rw [splitOn_slash_cons] at hdots
    have hdots := (List.forall_mem_cons.1 hdots).2
    have hchars := (List.forall_mem_cons.1 hchars).2
    have hplain : '\\' ∉ rest := fun hmem => absurd (hchars _ hmem (by decide)) (by decide)
    have hapart : ∀ s ∈ rest.splitOn '/', '/' ∉ s := fun s hs => not_mem_of_mem_splitOn hs
    refine ⟨(rest.splitOn '/').rdropWhile (· = []), fun s hs => ?_, ?_, ?_⟩
    · have hmem := (List.rdropWhile_prefix _ _).mem hs
      refine ⟨fun c hc => ?_, hdots s hmem⟩
      have hslashed : c ∈ '/' :: rest :=
        flatMap_splitOn rest ▸ List.mem_flatMap.2 ⟨s, hmem, List.mem_cons_of_mem _ hc⟩
      have hne : c ≠ '/' := fun heq => hapart s hmem (heq ▸ hc)
      exact hchars c ((List.mem_cons.1 hslashed).resolve_left hne) hne
    · rw [← flatMap_splitOn, rdropWhile_flatMap_slash hapart]
    · have hresolved := resolveDots_append hdots [] []
      rw [List.append_nil, resolveDots, List.nil_append] at hresolved
      rw [hierarchy, if_pos hslash, segmentsOf_http, map_slash_of_plain hplain, hresolved,
        rdropWhile_map_encodedSegment]

/-! ## Base URLs -/

theorem toList_withoutTrailingSlashes (text : String) :
    (Config.withoutTrailingSlashes text).toList = text.toList.rdropWhile (· = '/') := by
  rw [Config.withoutTrailingSlashes, String.toList_ofList]
  rfl

/-- What stands behind the authority of a text. -/
def behindAuthority (cs : List Char) : List Char :=
  (((cs.dropWhile (· ≠ ':')).drop 1).dropWhile (· = '/')).dropWhile (· ≠ '/')

/-- A text that can be a base URL: an http URL with a path without dots, without query and
fragment, written without backslashes, tabs and line ends and without blanks around it. It may
have slashes at its end. -/
structure IsBase (text : String) (base : Url) : Prop where
  parsed : parse? text = some base
  scheme : base.scheme = "http"
  query : base.query = none
  fragment : base.fragment = none
  noDots : ∀ s ∈ (behindAuthority text.toList).splitOn '/', isDots s = false
  chars : ∀ c ∈ text.toList, c ∉ ['\\', '\t', '\n', '\r']
  first : ∀ c ∈ text.toList.head?, 0x20 < c.toNat
  last : ∀ c ∈ text.toList.getLast?, 0x20 < c.toNat

/-- The characters of a text that can be a base URL. -/
def hasBaseChars (text : String) : Bool :=
  (text.toList.all fun c => c ∉ ['\\', '\t', '\n', '\r']) &&
    (text.toList.head?.all fun c => 0x20 < c.toNat) &&
    text.toList.getLast?.all fun c => 0x20 < c.toNat

instance (text : String) (base : Url) : Decidable (IsBase text base) :=
  decidable_of_iff (parse? text = some base ∧ base.scheme = "http" ∧ base.query = none ∧
    base.fragment = none ∧ (((behindAuthority text.toList).splitOn '/').all (!isDots ·)) = true ∧
    hasBaseChars text = true) <| by
  simp only [hasBaseChars, Bool.and_eq_true, List.all_eq_true, Option.all_eq_true,
    Bool.not_eq_true', decide_eq_true_eq]
  constructor
  · rintro ⟨hparsed, hscheme, hquery, hfragment, hdots, ⟨hchars, hfirst⟩, hlast⟩
    exact ⟨hparsed, hscheme, hquery, hfragment, hdots, hchars, hfirst, hlast⟩
  · intro h
    exact ⟨h.parsed, h.scheme, h.query, h.fragment, h.noDots, ⟨h.chars, h.first⟩, h.last⟩

theorem Front.behindAuthority_append (f : Front) {path : List Char}
    (hpath : path = [] ∨ path.head? = some '/') : behindAuthority (f.text ++ path) = path := by
  have hname : ∀ c ∈ f.name, decide (c ≠ ':') = true := by
    intro c hc
    rw [decide_eq_true_eq]
    rintro rfl
    exact absurd (f.name_chars _ hc) (by decide)
  have hlead : ∀ c ∈ f.lead, decide (c = '/') = true := fun c hc => by
    rw [f.lead_slash c hc]
    rfl
  have hauthority : ∀ c ∈ f.authority, decide (c ≠ '/') = true := by
    intro c hc
    rw [decide_eq_true_eq]
    rintro rfl
    exact f.authority_chars _ hc (by decide)
  have hstop : (f.authority ++ path).dropWhile (· = '/') = f.authority ++ path := by
    cases h : f.authority with
    | nil => exact absurd h f.authority_ne_nil
    | cons c rest =>
      have hc := hauthority c (h ▸ List.mem_cons_self)
      rw [List.cons_append, List.dropWhile_cons_of_neg (by simpa using hc)]
  have hend : path.dropWhile (· ≠ '/') = path := by
    cases path with
    | nil => rfl
    | cons c rest =>
      obtain rfl : c = '/' := by simpa using hpath
      rfl
  have htext : f.text ++ path = f.name ++ ':' :: (f.lead ++ (f.authority ++ path)) := by
    simp [text]
  rw [behindAuthority, htext, List.dropWhile_append_of_pos hname,
    List.dropWhile_cons_of_neg (by decide), List.drop_one, List.tail_cons,
    List.dropWhile_append_of_pos hlead, hstop, List.dropWhile_append_of_pos hauthority, hend]

theorem Front.rdropWhile_append (f : Front) (path : List Char) :
    (f.text ++ path).rdropWhile (· = '/') = f.text ++ path.rdropWhile (· = '/') := by
  refine rdropWhile_append_of_kept (List.rdropWhile_eq_self_iff.2 fun hne => ?_) path
  have hlast : f.text.getLast hne = f.authority.getLast f.authority_ne_nil := by
    simp [text, f.authority_ne_nil]
  rw [hlast, decide_eq_true_eq]
  intro heq
  exact f.authority_chars _ (List.getLast_mem f.authority_ne_nil) (by simp [heq])

/-- A base text is a front and plain segments, but for the slashes at its end. -/
theorem IsBase.exists_front {text : String} {base : Url} (h : IsBase text base) :
    ∃ (f : Front) (path : List Char) (segments : List (List Char)),
      text.toList = f.text ++ path ∧ base = f.url path none none ∧
      (∀ s ∈ segments, IsPlain s) ∧ path.rdropWhile (· = '/') = segments.flatMap ('/' :: ·) ∧
      (hierarchy "http" path).rdropWhile (· = "") = segments.map encodedSegment := by
  have hne : text.toList ≠ [] := by
    intro hnil
    have hparsed := h.parsed
    rw [parse?, hnil] at hparsed
    cases hparsed
  have hclean := cleaned_append hne
    (fun c hc hmem => h.chars c hc (List.mem_cons_of_mem _ hmem)) h.first h.last []
  rw [List.append_nil, tidied, List.rdropWhile_nil, List.filter_nil, List.append_nil] at hclean
  have hread := h.parsed
  rw [parse?, hclean] at hread
  obtain ⟨f, tail, htext, hpath⟩ := Url.exists_front hread h.scheme fun hmem =>
    h.chars _ hmem (by decide)
  have hsplit : splitTail tail = ((splitTail tail).1, (splitTail tail).2.1, (splitTail tail).2.2) :=
    rfl
  rw [htext, f.read_append hsplit hpath, Option.some.injEq] at hread
  have hquery := h.query
  have hfragment := h.fragment
  rw [← hread] at hquery hfragment
  have hquery := Option.map_eq_none_iff.1 hquery
  have hfragment := Option.map_eq_none_iff.1 hfragment
  have hwhole := splitTail_fst_of_none hquery hfragment
  rw [hquery, hfragment, hwhole] at hread
  rw [hwhole] at hpath
  have hchars : ∀ c ∈ tail, c ≠ '/' → isBreak c = false := by
    intro c hc hslash
    have htail := not_mem_splitTail_fst (hwhole.symm ▸ hc)
    have hout := h.chars c (htext ▸ List.mem_append_right _ hc)
    simp only [List.mem_cons, not_or] at hout
    simp [isBreak, hslash, htail, hout]
  have hdots := h.noDots
  rw [htext, f.behindAuthority_append hpath] at hdots
  obtain ⟨segments, hplain, htrim, hown⟩ := hierarchy_of_plain hpath hchars hdots
  exact ⟨f, tail, segments, htext, hread.symm, hplain, htrim, hown⟩

theorem IsBase.host_isSome {text : String} {base : Url} (h : IsBase text base) :
    base.host.isSome = true := by
  obtain ⟨f, path, _, _, rfl, _⟩ := h.exists_front
  rfl

/-- The front of a base text stays as it is, and so do segments behind it. -/
theorem IsBase.cleaned_front {text : String} {base : Url} (h : IsBase text base) {f : Front}
    {path slashed : List Char} (htext : text.toList = f.text ++ path)
    (hchars : ∀ c ∈ slashed, c ∉ ['\t', '\n', '\r']) (hend : slashed.getLast? = some '/')
    (cs : List Char) : cleaned (f.text ++ slashed ++ cs) = f.text ++ (slashed ++ tidied cs) := by
  rw [cleaned_append, List.append_assoc]
  · simp [Front.text]
  · intro c hc
    rcases List.mem_append.1 hc with hc | hc
    · exact fun hout =>
        h.chars c (htext ▸ List.mem_append_left _ hc) (List.mem_cons_of_mem _ hout)
    · exact hchars c hc
  · intro c hc
    refine h.first c ?_
    rw [htext, Front.text] at *
    simpa using hc
  · intro c hc
    rw [List.getLast?_append, hend] at hc
    cases hc
    decide

/-- The URL of a base text that loses the slashes at its end and gets plain segments and one more
piece. -/
theorem IsBase.parse?_append {text full : String} {base : Url} (h : IsBase text base)
    {more : List (List Char)} (hmore : ∀ s ∈ more, IsPlain s) {cs : List Char}
    (hfull : full.toList = (Config.withoutTrailingSlashes text).toList ++
      (more.flatMap ('/' :: ·) ++ '/' :: cs)) :
    ∃ own : List String, base.path = .segments own ∧
      parse? full = some { base with
        path := .segments (resolveDots (own.rdropWhile (· = "") ++ more.map encodedSegment)
          (segmentsOf "http" (splitTail (tidied cs)).1))
        query := (splitTail (tidied cs)).2.1.map (encodedQuery "http")
        fragment := (splitTail (tidied cs)).2.2.map encodedFragment } := by
  obtain ⟨f, path, segments, htext, rfl, hsegments, htrim, hown⟩ := h.exists_front
  have hall : ∀ s ∈ segments ++ more, IsPlain s := fun s hs =>
    (List.mem_append.1 hs).elim (hsegments s) (hmore s)
  -- All segments with a slash before each and behind the last.
  obtain ⟨slashed, hslashed⟩ : ∃ slashed,
    slashed = (segments ++ more).flatMap ('/' :: ·) ++ ['/'] := ⟨_, rfl⟩
  have hchars : ∀ c ∈ slashed, (c ≠ '?' ∧ c ≠ '#') ∧ c ∉ ['\t', '\n', '\r'] := by
    intro c hc
    rcases mem_slashed hall (hslashed ▸ hc) with rfl | hbreak
    · decide
    · obtain ⟨-, -, hquery, hfragment, hout⟩ := of_isBreak hbreak
      exact ⟨⟨hquery, hfragment⟩, hout⟩
  have hfront : full.toList = (f.text ++ slashed) ++ cs := by
    rw [hfull, toList_withoutTrailingSlashes, htext, f.rdropWhile_append, htrim, hslashed,
      List.flatMap_append]
    simp
  have hend : slashed.getLast? = some '/' := by
    rw [hslashed, List.getLast?_append]
    rfl
  have hclean : cleaned full.toList = f.text ++ (slashed ++ tidied cs) := by
    rw [hfront, h.cleaned_front htext (fun c hc => (hchars c hc).2) hend]
  have hsplit : ∀ tail, slashed ++ tail = (segments ++ more).flatMap ('/' :: ·) ++ '/' :: tail := by
    intro tail
    rw [hslashed, List.append_assoc, List.singleton_append]
  have htail := splitTail_append (fun c hc => (hchars c hc).1) (tidied cs)
  have hhead : (slashed ++ (splitTail (tidied cs)).1).head? = some '/' := by
    rw [hsplit]
    cases segments ++ more <;> rfl
  refine ⟨hierarchy "http" path, rfl, ?_⟩
  rw [parse?, hclean, f.read_append htail (.inr hhead), Front.url, hsplit,
    hierarchy_append hall, List.map_append, hown]
  rfl

/-! ## Pieces that are segments -/

/-- A text that is one segment behind the last slash of a URL, and stands for itself there. -/
structure IsSegment (cs : List Char) : Prop extends IsPlain cs where
  last : ∀ c ∈ cs.getLast?, 0x20 < c.toNat
  noEscape : holdsEscape cs = false

instance (cs : List Char) : Decidable (IsSegment cs) :=
  decidable_of_iff (IsPlain cs ∧ (cs.getLast?.all fun c => 0x20 < c.toNat) = true ∧
    holdsEscape cs = false) <| by
  simp only [Option.all_eq_true, decide_eq_true_eq]
  constructor
  · rintro ⟨hplain, hlast, hescape⟩
    exact ⟨hplain, hlast, hescape⟩
  · exact fun h => ⟨h.toIsPlain, h.last, h.noEscape⟩

theorem length_bytes_map_slash (cs : List Char) :
    (bytes (cs.map fun c => if c = '\\' then '/' else c)).length = (bytes cs).length := by
  induction cs with
  | nil => rfl
  | cons c rest ih =>
    rw [List.map_cons, Text.Utf8.length_bytes_cons, Text.Utf8.length_bytes_cons, ih]
    split
    · rename_i h
      rw [h]
      rfl
    · rfl

theorem exists_suffix_of_map {α β : Type} {f : α → β} {l : List α} {part : List β}
    (h : part <:+ l.map f) : ∃ own, own <:+ l ∧ part = own.map f := by
  refine ⟨l.drop ((l.map f).length - part.length), List.drop_suffix _ _, ?_⟩
  rw [List.map_drop]
  exact List.suffix_iff_eq_drop.1 h

/-- Nothing may be lost on the way from a piece to the last segment, if that stands for the
piece. -/
theorem isSegment_of_arrived {cs : List Char} (hne : cs ≠ []) {before : List String}
    {last : String}
    (hlast : resolveDots before (segmentsOf "http" (splitTail (tidied cs)).1) = before ++ [last])
    (hdecode : percentDecode last.toList = bytes cs) : IsSegment cs := by
  rw [segmentsOf_http] at hlast
  obtain ⟨parts, part, hparts, hsuffix⟩ := exists_splitOn_concat
    ((splitTail (tidied cs)).1.map fun c => if c = '\\' then '/' else c)
  obtain ⟨front, hfront⟩ := resolveDots_concat before parts part
  rw [hparts, hfront] at hlast
  obtain rfl := (List.append_inj_right' hlast rfl |> List.cons.inj).1
  cases hdots : isDots part with
  | true =>
    rw [hdots, if_pos rfl] at hdecode
    have hnil : (bytes cs).length = 0 := hdecode ▸ rfl
    exact absurd (Text.Utf8.eq_of_sublist_of_bytes (List.nil_sublist cs) hnil.le).symm hne
  | false =>
    rw [hdots, if_neg Bool.false_ne_true, encodedSegment, String.toList_ofList,
      percentDecode_percentEncode] at hdecode
    obtain ⟨own, hown, rfl⟩ := exists_suffix_of_map hsuffix
    have hpath := (splitTail_fst_starts (tidied cs)).sublist
    have hlength := length_percentDecode_le (own.map fun c => if c = '\\' then '/' else c)
    rw [hdecode, length_bytes_map_slash] at hlength
    obtain rfl := Text.Utf8.eq_of_sublist_of_bytes
      (hown.sublist.trans (hpath.trans (tidied_sublist cs))) hlength
    have htidied := (tidied_sublist own).antisymm (hown.sublist.trans hpath)
    rw [htidied] at hpath hown hparts
    have htail := hpath.antisymm hown.sublist
    have hslash : '/' ∉ own.map fun c => if c = '\\' then '/' else c :=
      not_mem_of_mem_splitOn (hparts ▸ List.mem_append_right _ List.mem_cons_self)
    have hplain : '\\' ∉ own := fun hmem => hslash (List.mem_map.2 ⟨_, hmem, if_pos rfl⟩)
    rw [map_slash_of_plain hplain] at hslash hdecode hdots
    obtain ⟨hout, hend⟩ := (tidied_eq_self_iff own).1 htidied
    refine ⟨⟨fun c hc => ?_, hdots⟩, hend, (percentDecode_eq_bytes_iff own).1 hdecode⟩
    have hno := not_mem_splitTail_fst (htail.symm ▸ hc)
    have hne : c ≠ '/' ∧ c ≠ '\\' := ⟨fun e => hslash (e ▸ hc), fun e => hplain (e ▸ hc)⟩
    have hout := hout c hc
    simp only [List.mem_cons, not_or] at hout
    simp [isBreak, hno, hne, hout]

/-- A segment that stands for itself arrives as one, with no query behind it. -/
theorem IsSegment.arrives {cs : List Char} (h : IsSegment cs) (before : List String) :
    resolveDots before (segmentsOf "http" (splitTail (tidied cs)).1) =
        before ++ [encodedSegment cs] ∧
      percentDecode (encodedSegment cs).toList = bytes cs ∧
      (splitTail (tidied cs)).2.1 = none := by
  have hchars : ∀ c ∈ cs, c ≠ '/' ∧ c ≠ '\\' ∧ c ≠ '?' ∧ c ≠ '#' ∧ c ∉ ['\t', '\n', '\r'] :=
    fun c hc => of_isBreak (h.chars c hc)
  have htidied : tidied cs = cs :=
    (tidied_eq_self_iff cs).2 ⟨fun c hc => (hchars c hc).2.2.2.2, h.last⟩
  have htail := splitTail_of_plain fun c hc => ⟨(hchars c hc).2.2.1, (hchars c hc).2.2.2.1⟩
  have hplain : '\\' ∉ cs := fun hmem => (hchars _ hmem).2.1 rfl
  have hslash : '/' ∉ cs := fun hmem => (hchars _ hmem).1 rfl
  rw [htidied, htail]
  refine ⟨?_, ?_, rfl⟩
  · rw [segmentsOf_http, map_slash_of_plain hplain, List.splitOn_eq_singleton hslash,
      resolveDots_cons h.noDots, resolveDots]
  · rw [encodedSegment, String.toList_ofList, percentDecode_percentEncode,
      percentDecode_eq_bytes_iff]
    exact h.noEscape

/-- A piece arrives as one segment that stands for it, with no query behind it, when it is such a
segment, and only then. -/
theorem isSegment_iff {cs : List Char} (hne : cs ≠ []) (before : List String) :
    ((∃ last, resolveDots before (segmentsOf "http" (splitTail (tidied cs)).1) = before ++ [last] ∧
        percentDecode last.toList = bytes cs) ∧ (splitTail (tidied cs)).2.1 = none) ↔
      IsSegment cs := by
  constructor
  · rintro ⟨⟨last, hlast, hdecode⟩, _⟩
    exact isSegment_of_arrived hne hlast hdecode
  · intro h
    obtain ⟨hlast, hdecode, hquery⟩ := h.arrives before
    exact ⟨⟨_, hlast, hdecode⟩, hquery⟩

end SchemaCatalog.Url
