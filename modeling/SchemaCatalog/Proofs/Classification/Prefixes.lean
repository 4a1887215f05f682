import Mathlib.Data.Finset.Card
import SchemaCatalog.Proofs.Classification.Warnings

/-!
# SchemaCatalog.Proofs.Classification.Prefixes

Which types a prefix makes one.

A name that starts with the prefix stays as it is, and every other name gets the prefix and a
capital first letter. So two names can meet in two ways (`Naming.Meet`): neither starts with the
prefix and only the case of the first letter tells them apart, or one of them is what the other
becomes. These are the only ways (`prefixed_eq_iff`). A map has as many entries as there are
different names exactly when the naming tells these apart (`size_ofList_eq_card_iff`), whatever
the naming is, so the two ways to meet are also the only ways to lose a type.
-/

namespace SchemaCatalog

namespace Naming

open Text (LetterCase.upper)
open Text.LetterCase (asciiUpper)

/-- Two different names that get the same key from a prefix. -/
inductive Meet (start : List Char) : List Char → List Char → Prop where
  /-- Both get the prefix, and the case of the first letter is all that tells them apart. -/
  | firstLetter {x y : Char} {rest : List Char} (left : ¬ start <+: x :: rest)
      (right : ¬ start <+: y :: rest) (different : x ≠ y) (same : asciiUpper x = asciiUpper y) :
      Meet start (x :: rest) (y :: rest)
  /-- The first name is what the second becomes. -/
  | image {y : Char} {rest : List Char} (right : ¬ start <+: y :: rest) :
      Meet start (start ++ asciiUpper y :: rest) (y :: rest)
  /-- The second name is what the first becomes. -/
  | imageOf {x : Char} {rest : List Char} (left : ¬ start <+: x :: rest) :
      Meet start (x :: rest) (start ++ asciiUpper x :: rest)

theorem Meet.ne {start a b : List Char} (h : Meet start a b) : a ≠ b := by
  cases h with
  | firstLetter _ _ different => exact fun e => different (List.cons.inj e).1
  | image right =>
    intro e
    exact right (e ▸ List.prefix_append _ _)
  | imageOf left =>
    intro e
    exact left (e.symm ▸ List.prefix_append _ _)

theorem upper_of_isNameStart {c : Char} (h : Sdl.isNameStart c = true) :
    LetterCase.upper c = [asciiUpper c] := by
  have hcode : c.toNat < 128 := by
    simp only [Sdl.isNameStart, Bool.or_eq_true, Bool.and_eq_true, decide_eq_true_eq] at h
    rcases h with (⟨_, hhigh⟩ | ⟨_, hhigh⟩) | rfl
    · exact Nat.lt_of_le_of_lt (show c.toNat ≤ 'z'.toNat from hhigh) (by decide)
    · exact Nat.lt_of_le_of_lt (show c.toNat ≤ 'Z'.toNat from hhigh) (by decide)
    · decide
  exact Text.LetterCase.forall_ascii
    (P := fun c => Sdl.isNameStart c = true → LetterCase.upper c = [asciiUpper c])
    (by decide +kernel) hcode h

theorem capitalized_name {c : Char} {rest : List Char} (h : Sdl.isName (c :: rest) = true) :
    capitalized (c :: rest) = asciiUpper c :: rest := by
  rw [Sdl.isName, Bool.and_eq_true] at h
  rw [capitalized, upper_of_isNameStart h.1, List.singleton_append]

theorem toList_prefixed (start raw : String) : (prefixed start raw).toList =
    if start.toList <+: raw.toList then raw.toList
    else start.toList ++ capitalized raw.toList := by
  rw [prefixed]
  by_cases h : start.toList <+: raw.toList
  · rw [if_pos h, if_pos (List.isPrefixOf_iff_prefix.2 h)]
  · rw [if_neg h, if_neg (mt List.isPrefixOf_iff_prefix.1 h), String.toList_append,
      String.toList_ofList]

theorem Meet.toList_prefixed {start a b : String} (h : Meet start.toList a.toList b.toList)
    (ha : Sdl.isName a.toList = true) (hb : Sdl.isName b.toList = true) :
    (prefixed start a).toList = (prefixed start b).toList := by
  rw [Naming.toList_prefixed, Naming.toList_prefixed]
  generalize start.toList = start, a.toList = a, b.toList = b at h ha hb ⊢
  cases h with
  | firstLetter left right _ same =>
    rw [if_neg left, if_neg right, capitalized_name ha, capitalized_name hb, same]
  | image right => rw [if_pos (List.prefix_append _ _), if_neg right, capitalized_name hb]
  | imageOf left => rw [if_pos (List.prefix_append _ _), if_neg left, capitalized_name ha]

/-- Two names get the same key when they are the same or meet, and only then. -/
theorem prefixed_eq_iff (start : String) {a b : String} (ha : Sdl.isName a.toList = true)
    (hb : Sdl.isName b.toList = true) :
    prefixed start a = prefixed start b ↔ a = b ∨ Meet start.toList a.toList b.toList := by
  constructor
  · intro h
    rw [← String.toList_inj, toList_prefixed, toList_prefixed] at h
    rw [← String.toList_inj]
    generalize start.toList = start, a.toList = a, b.toList = b at ha hb h ⊢
    obtain _ | ⟨x, xs⟩ := a
    · cases ha
    obtain _ | ⟨y, ys⟩ := b
    · cases hb
    rw [capitalized_name ha, capitalized_name hb] at h
    by_cases hleft : start <+: x :: xs <;> by_cases hright : start <+: y :: ys
    · rw [if_pos hleft, if_pos hright] at h
      exact .inl h
    · rw [if_pos hleft, if_neg hright] at h
      exact .inr (h ▸ .image hright)
    · rw [if_neg hleft, if_pos hright] at h
      exact .inr (h ▸ .imageOf hleft)
    · rw [if_neg hleft, if_neg hright, List.append_cancel_left_eq, List.cons.injEq] at h
      obtain ⟨hfirst, rfl⟩ := h
      by_cases hxy : x = y
      · exact .inl (by rw [hxy])
      · exact .inr (.firstLetter hleft hright hxy hfirst)
  · rintro (rfl | h)
    · rfl
    · exact String.toList_inj.1 (h.toList_prefixed ha hb)

/-- No two of the names meet. -/
def Apart (start : String) (names : List String) : Prop :=
  ∀ a ∈ names, ∀ b ∈ names, ¬ Meet start.toList a.toList b.toList

theorem injOn_prefixed_iff (start : String) {names : List String}
    (hnames : ∀ a ∈ names, Sdl.isName a.toList = true) :
    Set.InjOn (prefixed start) {a | a ∈ names} ↔ Apart start names := by
  constructor
  · intro h a ha b hb hmeet
    have heq := (prefixed_eq_iff start (hnames a ha) (hnames b hb)).2 (.inr hmeet)
    exact hmeet.ne (String.toList_inj.2 (h ha hb heq))
  · intro h a ha b hb heq
    rcases (prefixed_eq_iff start (hnames a ha) (hnames b hb)).1 heq with heq | hmeet
    · exact heq
    · exact absurd hmeet (h a ha b hb)

end Naming

/-! ## Keys and names -/

namespace Sdl.Document

variable {text : String} {d : Document}

theorem objectNames_eq_map (naming : Naming) (d : Document) :
    d.objectNames naming = (d.objectNames .identity).map naming := by
  rw [objectNames, objectNames, List.map_filterMap]
  congr
  funext o
  cases o.name <;> rfl

theorem unionNames_eq_map (naming : Naming) (d : Document) :
    d.unionNames naming = (d.unionNames .identity).map naming := by
  rw [unionNames, unionNames, List.map_filterMap]
  congr
  funext u
  cases u.name <;> rfl

theorem Complete.isName_of_mem_objectNames (h : d.Complete text) {a : String}
    (ha : a ∈ d.objectNames .identity) : Sdl.isName a.toList = true := by
  obtain ⟨o, ho, hname⟩ := List.mem_filterMap.1 ha
  obtain ⟨⟨raw, hraw, hword⟩, _⟩ := h _ (mem_objects.1 ho)
  rw [hraw] at hname
  cases hname
  exact hword

theorem Complete.isName_of_mem_unionNames (h : d.Complete text) {a : String}
    (ha : a ∈ d.unionNames .identity) : Sdl.isName a.toList = true := by
  obtain ⟨u, hu, hname⟩ := List.mem_filterMap.1 ha
  obtain ⟨raw, hraw, hword⟩ := h _ (mem_unions.1 hu)
  rw [hraw] at hname
  cases hname
  exact hword

end Sdl.Document

/-- A map has as many entries as there are different names when the naming tells them apart, and
only then. -/
theorem size_ofList_eq_card_iff {α : Type} {naming : Naming} {entries : List (String × α)}
    {names : List String} (h : entries.map (·.1) = names.map naming) :
    (OrderedMap.ofList entries).size = names.toFinset.card ↔
      Set.InjOn naming {a | a ∈ names} := by
  have hkeys : (OrderedMap.ofList entries).keys.toFinset = names.toFinset.image naming := by
    ext k
    rw [List.mem_toFinset, mem_keys_ofList_iff h, List.mem_map, Finset.mem_image]
    simp only [List.mem_toFinset]
  have hdistinct : (OrderedMap.ofList entries).keys.Nodup := (OrderedMap.ofList entries).distinct
  rw [OrderedMap.size_eq, ← List.toFinset_card_of_nodup hdistinct, hkeys, Finset.card_image_iff,
    List.coe_toFinset]

/-! ## Texts -/

/-- For every prefix and every accepted text, two names of types have one key when they are the
same or meet, and only then, and the map has as many objects and unions as there are different
names of them when no two of these meet, and only then. -/
theorem prefixed_keeps_apart (start : String) (examples : ExampleGenerator) (config : Config)
    {sdl : String} (accepted : (Sdl.parse sdl).2 = []) :
    ∃ m objectNames unionNames,
      (Classifier.classify ⟨.prefixed start, examples⟩ sdl config).value = .ok m ∧
      (Sdl.parse sdl).1.objectNames .identity = objectNames ∧
      (Sdl.parse sdl).1.unionNames .identity = unionNames ∧
      m.objects.keys = (objectNames.map (Naming.prefixed start)).eraseDups ∧
      m.unions.keys = (unionNames.map (Naming.prefixed start)).eraseDups ∧
      (∀ a ∈ objectNames ++ unionNames, ∀ b ∈ objectNames ++ unionNames,
        Naming.prefixed start a = Naming.prefixed start b ↔
          a = b ∨ Naming.Meet start.toList a.toList b.toList) ∧
      (m.objects.size = objectNames.toFinset.card ↔ Naming.Apart start objectNames) ∧
      (m.unions.size = unionNames.toFinset.card ↔ Naming.Apart start unionNames) := by
  have complete := Sdl.complete_of_clean accepted
  obtain ⟨m, hm⟩ := complete.typeMap? (.prefixed start)
  have hvalue := value_classify ⟨.prefixed start, examples⟩ config accepted hm
  obtain ⟨objects, unions, scalars, hobjects, hunions, _, rfl⟩ := Sdl.Document.of_typeMap? hm
  have hobjectKeys := (Sdl.Document.objectNames_eq hobjects).trans
    (Sdl.Document.objectNames_eq_map _ _)
  have hunionKeys := (Sdl.Document.unionNames_eq hunions).trans
    (Sdl.Document.unionNames_eq_map _ _)
  have hnames : ∀ a ∈ (Sdl.parse sdl).1.objectNames .identity ++
      (Sdl.parse sdl).1.unionNames .identity, Sdl.isName a.toList = true := fun a ha =>
    (List.mem_append.1 ha).elim complete.isName_of_mem_objectNames
      complete.isName_of_mem_unionNames
  refine ⟨_, _, _, hvalue, rfl, rfl, ?_, ?_, fun a ha b hb => ?_, ?_, ?_⟩
  · rw [OrderedMap.keys_ofList, hobjectKeys]
  · rw [OrderedMap.keys_ofList, hunionKeys]
  · exact Naming.prefixed_eq_iff start (hnames a ha) (hnames b hb)
  · rw [size_ofList_eq_card_iff hobjectKeys]
    exact Naming.injOn_prefixed_iff start fun a => complete.isName_of_mem_objectNames
  · rw [size_ofList_eq_card_iff hunionKeys]
    exact Naming.injOn_prefixed_iff start fun a => complete.isName_of_mem_unionNames

/-- Two objects and two unions whose names differ in the case of the first letter: a prefix is not
injective, and one object and one union are lost. -/
theorem prefixed_loses_types :
    ¬ (∀ start a b, Sdl.isName a.toList = true → Sdl.isName b.toList = true →
        Naming.prefixed start a = Naming.prefixed start b → a = b) ∧
      (Sdl.parse "type post{f:B}type Post{g:B}union media=B union Media=B").2 = [] ∧
      (Sdl.parse "type post{f:B}type Post{g:B}union media=B union Media=B").1.objectNames
        .identity = ["post", "Post"] ∧
      (Sdl.parse "type post{f:B}type Post{g:B}union media=B union Media=B").1.unionNames
        .identity = ["media", "Media"] ∧
      ∃ m, (Classifier.classify ⟨.prefixed "Sanity", .none⟩
          "type post{f:B}type Post{g:B}union media=B union Media=B"
          ⟨"p", "d", "a", none, none, none, none⟩).value = .ok m ∧
        m.objects.size = 1 ∧ m.unions.size = 1 := by
  have accepted :
      (Sdl.parse "type post{f:B}type Post{g:B}union media=B union Media=B").2 = [] := by
    decide +kernel
  refine ⟨fun injective => ?_, accepted, by decide +kernel, by decide +kernel, ?_⟩
  · have heq := injective "Sanity" "post" "Post" (by decide) (by decide) (by decide +kernel)
    exact absurd heq (by decide)
  · obtain ⟨m, hm⟩ := (Sdl.complete_of_clean accepted).typeMap? (.prefixed "Sanity")
    have hsizes : ((Sdl.parse
        "type post{f:B}type Post{g:B}union media=B union Media=B").1.typeMap?
          (.prefixed "Sanity")).map (fun m => (m.objects.size, m.unions.size)) = some (1, 1) := by
      decide +kernel
    rw [hm, Option.map_some, Option.some.injEq, Prod.mk.injEq] at hsizes
    exact ⟨_, value_classify ⟨.prefixed "Sanity", .none⟩ _ accepted hm, hsizes⟩

/-- A name that is what the other becomes, beside a name that meets neither. -/
theorem prefixed_keeps_apart_image :
    (Sdl.parse "type post{f:B}type SanityPost{g:B}type Page{h:B}").2 = [] ∧ ∃ m,
      (Classifier.classify ⟨.prefixed "Sanity", .none⟩
        "type post{f:B}type SanityPost{g:B}type Page{h:B}"
        ⟨"p", "d", "a", none, none, none, none⟩).value = .ok m ∧
      m.objects.keys = ["SanityPost", "SanityPage"] ∧
      (m.objects.size = 3 ↔ Naming.Apart "Sanity" ["post", "SanityPost", "Page"]) := by
  have accepted : (Sdl.parse "type post{f:B}type SanityPost{g:B}type Page{h:B}").2 = [] := by
    decide +kernel
  have hnames : (Sdl.parse "type post{f:B}type SanityPost{g:B}type Page{h:B}").1.objectNames
      .identity = ["post", "SanityPost", "Page"] := by
    decide +kernel
  obtain ⟨m, objectNames, _, hm, hobjects, _, hkeys, _, _, hsize, _⟩ := prefixed_keeps_apart
    "Sanity" .none ⟨"p", "d", "a", none, none, none, none⟩ accepted
  rw [hnames] at hobjects
  subst hobjects
  exact ⟨accepted, m, hm, hkeys.trans (by decide +kernel), hsize⟩

end SchemaCatalog
