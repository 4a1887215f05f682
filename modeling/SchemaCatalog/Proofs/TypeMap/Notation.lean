import Mathlib.Logic.Relation
import SchemaCatalog.Proofs.TypeMap.Decoding
import SchemaCatalog.Proofs.TypeMap.Members

/-!
# SchemaCatalog.Proofs.TypeMap.Notation

What the notation of a type says about it.

The functions on types go down their wrappers, and the notation puts brackets around and marks
behind what it has so far, so each fact is an induction on the wrappers. They hold of types whose
names have none of these characters, which are all types of accepted texts.
-/

namespace SchemaCatalog

namespace TypeRef

/-- One layer of a type. -/
inductive Wrapper where
  | list
  | nonNull
deriving DecidableEq, Repr

/-- All layers of a type, the outermost first. -/
def wrappers : TypeRef → List Wrapper
  | named _ => []
  | list item => .list :: item.wrappers
  | nonNull inner => .nonNull :: inner.wrappers

/-- A non-null wrapper more at one place. -/
inductive AddsNonNull : TypeRef → TypeRef → Prop
  | here (t : TypeRef) : AddsNonNull t (.nonNull t)
  | list {t u : TypeRef} (h : AddsNonNull t u) : AddsNonNull (.list t) (.list u)
  | nonNull {t u : TypeRef} (h : AddsNonNull t u) : AddsNonNull (.nonNull t) (.nonNull u)

/-- A text without brackets and exclamation marks. -/
def withoutMarks (s : String) : String := String.ofList (s.toList.filter (· ∉ marks))

@[simp] theorem toList_render (t : TypeRef) : t.render.toList = t.chars := String.toList_ofList

variable {t u : TypeRef}

theorem withoutMarks_render (h : t.Unmarked) : withoutMarks t.render = t.namedType := by
  have hchars : t.chars.filter (· ∉ marks) = t.namedType.toList := by
    induction t with
    | named name =>
      rw [chars, namedType, List.filter_eq_self]
      intro c hc
      exact decide_eq_true (h c hc)
    | list item ih =>
      have hclose : [']'].filter (· ∉ marks) = [] := by decide
      rw [chars, List.filter_cons_of_neg (by decide), List.filter_append, ih h, hclose,
        List.append_nil, namedType]
    | nonNull inner ih =>
      have hbang : ['!'].filter (· ∉ marks) = [] := by decide
      rw [chars, List.filter_append, ih h, hbang, List.append_nil, namedType]
  rw [withoutMarks, toList_render, hchars, String.ofList_toList]

theorem mem_chars_iff_isList (h : t.Unmarked) : '[' ∈ t.chars ↔ t.isList = true := by
  induction t with
  | named name =>
    have hname : '[' ∉ name.toList := fun hc => h '[' hc (by decide)
    simp [chars, isList, hname]
  | list item ih => simp [chars, isList]
  | nonNull inner ih => simp [chars, isList, ih h]

theorem head?_chars_iff_isList (h : t.Unmarked) : t.chars.head? = some '[' ↔ t.isList = true := by
  constructor
  · intro hhead
    exact (mem_chars_iff_isList h).1 (List.mem_of_head? hhead)
  · intro hlist
    induction t with
    | named name => cases hlist
    | list item ih => rfl
    | nonNull inner ih =>
      rw [chars, List.head?_append, ih h hlist]
      rfl

theorem isList_iff_mem_wrappers (t : TypeRef) : t.isList = true ↔ Wrapper.list ∈ t.wrappers := by
  induction t with
  | named name => simp [isList, wrappers]
  | list item ih => simp [isList, wrappers]
  | nonNull inner ih => simp [isList, wrappers, ih]

theorem getLast?_chars_iff_isNonNull (h : t.Unmarked) :
    t.chars.getLast? = some '!' ↔ t.isNonNull = true := by
  cases t with
  | named name =>
    have hname : name.toList.getLast? ≠ some '!' :=
      fun hlast => h '!' (List.mem_of_getLast? hlast) (by decide)
    simp [chars, isNonNull, hname]
  | list item =>
    have hlast : (list item).chars.getLast? = some ']' := by
      rw [chars, ← List.cons_append, List.getLast?_concat]
    simp [hlast, isNonNull]
  | nonNull inner => simp [chars, isNonNull]

theorem render_injective (ht : t.Unmarked) (hu : u.Unmarked) (h : t.render = u.render) : t = u := by
  have hread := ofNotation?_render ht
  rw [h, ofNotation?_render hu] at hread
  exact (Option.some.inj hread).symm

theorem AddsNonNull.same (h : AddsNonNull t u) :
    u.namedType = t.namedType ∧ u.isList = t.isList := by
  induction h with
  | here t => exact ⟨rfl, rfl⟩
  | list _ ih => exact ⟨ih.1, rfl⟩
  | nonNull _ ih => exact ih

theorem same_of_eqvGen (h : Relation.EqvGen AddsNonNull t u) :
    u.namedType = t.namedType ∧ u.isList = t.isList := by
  induction h with
  | rel t u h => exact h.same
  | refl t => exact ⟨rfl, rfl⟩
  | symm t u _ ih => exact ⟨ih.1.symm, ih.2.symm⟩
  | trans t u v _ _ ih ih' => exact ⟨ih'.1.trans ih.1, ih'.2.trans ih.2⟩

end TypeRef

open TypeRef (withoutMarks AddsNonNull)

/-- What is written beside the type of a field follows from the notation of the type. -/
structure FieldDef.Told (f : FieldDef) (j : Json) : Prop where
  namedType : f.namedType = withoutMarks f.type.render
  isList : f.isList = true ↔ '[' ∈ f.type.render.toList
  typeMember : j.member? "type" = some (.text f.type.render)
  namedTypeMember : j.member? "namedType" = some (.text (withoutMarks f.type.render))
  isListMember : j.member? "isList" = some (.bool (decide ('[' ∈ f.type.render.toList)))

theorem FieldDef.told {f : FieldDef} (h : f.type.Unmarked) : f.Told f.toJson := by
  have hname : f.namedType = withoutMarks f.type.render := (TypeRef.withoutMarks_render h).symm
  have hlist : f.isList = true ↔ '[' ∈ f.type.render.toList := by
    rw [TypeRef.toList_render]
    exact (TypeRef.mem_chars_iff_isList h).symm
  refine ⟨hname, hlist, ?_, ?_, ?_⟩
  · exact Json.member?_record _ _
  · rw [← hname]
    exact Json.member?_record _ _
  · have hbool : decide ('[' ∈ f.type.render.toList) = f.isList := by
      rw [Bool.eq_iff_iff, decide_eq_true_iff, hlist]
    rw [hbool]
    exact Json.member?_record _ _

/-- The notation of a type, whose name holds no marks, says which name it is, whether it is a list
and whether it is non-null, and no two types have one notation. So the fields of every type map
that a text has, and their JSON values, agree with the notations that are written there. -/
theorem notation_tells_type :
    (∀ t : TypeRef, t.Unmarked →
      withoutMarks t.render = t.namedType ∧
      (t.isList = true ↔ '[' ∈ t.render.toList) ∧
      ('[' ∈ t.render.toList ↔ t.render.toList.head? = some '[') ∧
      (t.isList = true ↔ TypeRef.Wrapper.list ∈ t.wrappers) ∧
      (t.isNonNull = true ↔ t.render.toList.getLast? = some '!') ∧
      ∀ u : TypeRef, u.Unmarked → t.render = u.render → t = u) ∧
    (∀ m : TypeMap, m.Unmarked → ∀ name o field f, m.objects.get? name = some o →
      o.fields.get? field = some f →
      ∃ j, m.toJson.at? ["objects", name, "fields", field] = some j ∧ f.Told j) ∧
    (∀ c sdl config m, (Classifier.classify c sdl config).value = .ok m → m.Unmarked) ∧
    ∀ t u : TypeRef, Relation.EqvGen AddsNonNull t u →
      u.namedType = t.namedType ∧ u.isList = t.isList := by
  refine ⟨fun t ht => ?_, fun m hm name o field f ho hf => ?_, fun c sdl config m => ?_,
    fun t u => TypeRef.same_of_eqvGen⟩
  · rw [TypeRef.toList_render]
    refine ⟨TypeRef.withoutMarks_render ht, (TypeRef.mem_chars_iff_isList ht).symm, ?_,
      TypeRef.isList_iff_mem_wrappers t, (TypeRef.getLast?_chars_iff_isNonNull ht).symm, ?_⟩
    · rw [TypeRef.mem_chars_iff_isList ht, TypeRef.head?_chars_iff_isList ht]
    · exact fun u hu h => TypeRef.render_injective ht hu h
  · have hobject : o ∈ m.objects.values :=
      List.mem_map.2 ⟨(name, o), (m.objects.mem_entries_iff).2 ho, rfl⟩
    have hfield : f ∈ o.fields.values :=
      List.mem_map.2 ⟨(field, f), (o.fields.mem_entries_iff).2 hf, rfl⟩
    exact ⟨f.toJson, TypeMap.at?_field ho hf [], FieldDef.told (hm o hobject f hfield)⟩
  · exact unmarked_of_classify

/-- A list in which every item and the list itself are there, and the same with marks removed. -/
theorem notation_tells_nonNull_list :
    withoutMarks "[Image!]!" = "Image" ∧
      (TypeRef.nonNull (.list (.nonNull (.named "Image")))).isNonNull = true ∧
      (∀ u : TypeRef, u.Unmarked → "[Image!]!" = u.render →
        TypeRef.nonNull (.list (.nonNull (.named "Image"))) = u) ∧
      (TypeRef.nonNull (.list (.nonNull (.named "Image")))).isList =
        (TypeRef.list (.named "Image")).isList := by
  have hmarks : (TypeRef.nonNull (.list (.nonNull (.named "Image")))).Unmarked :=
    TypeRef.unmarked_of_isName (by decide)
  obtain ⟨hname, _, _, _, hnull, hinj⟩ :=
    notation_tells_type.1 (.nonNull (.list (.nonNull (.named "Image")))) hmarks
  have hwrapped : Relation.EqvGen AddsNonNull (.list (.named "Image"))
      (.nonNull (.list (.nonNull (.named "Image")))) :=
    .trans _ _ _ (.rel _ _ (.list (.here _))) (.rel _ _ (.here _))
  refine ⟨hname, hnull.2 (by decide), hinj, ?_⟩
  exact (notation_tells_type.2.2.2 _ _ hwrapped).2

end SchemaCatalog
