import SchemaCatalog.Proofs.Classification.Denotation

/-!
# SchemaCatalog.Proofs.Classification.LastWins

The type map as a function of the definitions.

For every accepted text the classification gives the map of `Document.typeMap?`: one entry for
every name, where the name first comes, built from the definition that comes last, and the same
for the fields of an object. Definitions of other kinds have no say in it: two texts with the same
object types, unions and scalars in the same order have the same maps.
-/

namespace SchemaCatalog

/-- Object types, unions and scalars. -/
def Sdl.Definition.isClassified : Definition → Bool
  | object _ | union _ | scalar _ => true
  | other _ => false

/-- The definitions from which the type map is made. -/
def Sdl.Document.classified (d : Document) : List Definition :=
  d.definitions.filter (·.isClassified)

namespace Sdl.Document

variable {d d' : Document}

/-- What is picked from the definitions is picked from those that count. -/
theorem filterMap_classified {α : Type} {pick : Definition → Option α}
    (hpick : ∀ kind, pick (.other kind) = none) (d : Document) :
    d.classified.filterMap pick = d.definitions.filterMap pick := by
  rw [classified, List.filterMap_filter]
  congr
  funext definition
  cases definition with
  | object | union | scalar => rfl
  | other kind => rw [hpick]; rfl

variable (h : d.classified = d'.classified)
include h

theorem filterMap_congr {α : Type} {pick : Definition → Option α}
    (hpick : ∀ kind, pick (.other kind) = none) :
    d.definitions.filterMap pick = d'.definitions.filterMap pick := by
  rw [← filterMap_classified hpick d, h, filterMap_classified hpick]

theorem typeMap?_congr (naming : Naming) : d.typeMap? naming = d'.typeMap? naming := by
  have hobjects : d.objects = d'.objects := filterMap_congr h fun _ => rfl
  have hunions : d.unions = d'.unions := filterMap_congr h fun _ => rfl
  have hscalars : d.scalars = d'.scalars := filterMap_congr h fun _ => rfl
  rw [typeMap?, typeMap?, hobjects, hunions, hscalars]

end Sdl.Document

/-- Every entry stands under its own name. -/
def TypeMap.Keyed (m : TypeMap) : Prop :=
  (∀ entry ∈ m.objects.entries, entry.2.name = entry.1) ∧
    ∀ entry ∈ m.unions.entries, entry.2.name = entry.1

theorem Sdl.Document.keyed_of_typeMap? {d : Document} {naming : Naming} {m : TypeMap}
    (h : d.typeMap? naming = some m) : m.Keyed := by
  obtain ⟨objects, unions, scalars, hobjects, hunions, _, rfl⟩ := of_typeMap? h
  have hobject := forall_of_mapM (P := fun e => e.2.name = e.1) hobjects fun o _ entry ho => by
    obtain ⟨raw, fields, _, _, rfl⟩ := ObjectType.of_keyed? ho
    rfl
  have hunion := forall_of_mapM (P := fun e => e.2.name = e.1) hunions fun u _ entry hu => by
    obtain ⟨raw, _, rfl⟩ := UnionType.of_keyed? hu
    rfl
  exact ⟨fun entry hentry => hobject _ (OrderedMap.mem_of_mem_ofList hentry),
    fun entry hentry => hunion _ (OrderedMap.mem_of_mem_ofList hentry)⟩

/-- The type map of an accepted text. -/
theorem classify_value_of_accepted (c : Classifier) (config : Config) {sdl : String}
    (accepted : (Sdl.parse sdl).2 = []) :
    ∃ m, (c.classify sdl config).value = .ok m ∧
      (Sdl.parse sdl).1.typeMap? c.naming = some { m with exampleValues := .empty } ∧
      m.exampleValues = generated c.examples (Sdl.parse sdl).1 config
        { m with exampleValues := .empty } ∧
      m.Keyed ∧
      ∀ sdl' config' m', (Sdl.parse sdl').2 = [] →
        (Sdl.parse sdl').1.classified = (Sdl.parse sdl).1.classified →
        (c.classify sdl' config').value = .ok m' →
        m'.objects = m.objects ∧ m'.unions = m.unions ∧ m'.scalars = m.scalars := by
  obtain ⟨m₀, hm₀⟩ := (Sdl.complete_of_clean accepted).typeMap? c.naming
  have hempty : m₀.exampleValues = .empty := by
    obtain ⟨objects, unions, scalars, _, _, _, rfl⟩ := Sdl.Document.of_typeMap? hm₀
    rfl
  have hbare : { m₀ with exampleValues := .empty } = m₀ := by rw [← hempty]
  have hkeyed := Sdl.Document.keyed_of_typeMap? hm₀
  refine ⟨_, value_classify c config accepted hm₀, ?_, ?_, ⟨hkeyed.1, hkeyed.2⟩, ?_⟩
  · rw [hbare, hm₀]
  · rw [hbare]
  · intro sdl' config' m' accepted' hsame hm'
    have hm₁ := hm₀
    rw [← Sdl.Document.typeMap?_congr hsame] at hm₁
    rw [value_classify c config' accepted' hm₁] at hm'
    cases hm'
    exact ⟨rfl, rfl, rfl⟩

/-- Two definitions of one object type: the place of the first, the fields of the second. -/
theorem classify_two_definitions :
    (Sdl.parse "type A{f:B}type A{g:B}").2 = [] ∧ ∃ m,
      (Classifier.plain.classify "type A{f:B}type A{g:B}"
        ⟨"p", "d", "a", none, none, none, none⟩).value = .ok m ∧
      m.objects.entries.map (fun e => (e.1, e.2.fields.keys)) = [("A", ["g"])] := by
  have accepted : (Sdl.parse "type A{f:B}type A{g:B}").2 = [] := by decide +kernel
  obtain ⟨m, hm, hmap, _⟩ := classify_value_of_accepted .plain
    ⟨"p", "d", "a", none, none, none, none⟩ accepted
  have hentries : ((Sdl.parse "type A{f:B}type A{g:B}").1.typeMap? .identity).map
      (fun m => m.objects.entries.map fun e => (e.1, e.2.fields.keys)) = some [("A", ["g"])] := by
    decide +kernel
  refine ⟨accepted, m, hm, ?_⟩
  have hmap' : (Sdl.parse "type A{f:B}type A{g:B}").1.typeMap? .identity = _ := hmap
  rw [hmap'] at hentries
  exact Option.some.inj hentries

end SchemaCatalog
