import SchemaCatalog.Proofs.OrderedMap
import SchemaCatalog.TypeMap.Json

/-!
# SchemaCatalog.Proofs.TypeMap.Members

Where the parts of a type map stand in its JSON value.

`Json.at?` follows keys through nested objects. What is written for an entry of a map stands
under the key of the entry, so the field of an object is reached by four keys
(`TypeMap.at?_field`).
-/

namespace SchemaCatalog

namespace Json

/-- The first member of an object with a key. -/
def member? (key : String) : Json → Option Json
  | object members => (members.find? (·.1 = some key)).map (·.2)
  | _ => none

/-- What is reached through some keys, one level after the other. -/
def at? : List String → Json → Option Json
  | [], j => some j
  | key :: keys, j => (j.member? key).bind (at? keys)

theorem member?_record (key : String) (members : List (String × Json)) :
    (record members).member? key = members.lookup key := by
  rw [record, member?]
  induction members with
  | nil => rfl
  | cons member rest ih =>
    obtain ⟨k, value⟩ := member
    rw [List.map_cons, List.find?_cons, List.lookup_cons]
    by_cases h : key = k
    · subst h
      simp
    · have hne : (some k = some key) = False := by
        simp only [Option.some.injEq, eq_iff_iff, iff_false]
        exact fun h' => h h'.symm
      simp only [hne, decide_false, beq_eq_false_iff_ne.2 h]
      exact ih

theorem at?_cons_of_eq {key : String} {j part : Json} (h : j.member? key = some part)
    (keys : List String) : j.at? (key :: keys) = part.at? keys := by
  rw [at?, h, Option.bind_some]

end Json

theorem OrderedMap.member?_toJson {α : Type} (write : α → Json) (m : OrderedMap α) (key : String) :
    (m.toJson write).member? key = (m.get? key).map write := by
  rw [toJson, Json.member?_record, get?]
  induction m.entries with
  | nil => rfl
  | cons entry rest ih =>
    rw [List.map_cons, List.lookup_cons, List.lookup_cons]
    cases key == entry.1 with
    | true => rfl
    | false => exact ih

theorem TypeMap.at?_field {m : TypeMap} {name field : String} {o : ObjectDef} {f : FieldDef}
    (ho : m.objects.get? name = some o) (hf : o.fields.get? field = some f) (keys : List String) :
    m.toJson.at? ("objects" :: name :: "fields" :: field :: keys) = f.toJson.at? keys := by
  have hobjects : m.toJson.member? "objects" = some (m.objects.toJson ObjectDef.toJson) :=
    Json.member?_record _ _
  have hobject : (m.objects.toJson ObjectDef.toJson).member? name = some o.toJson := by
    rw [OrderedMap.member?_toJson, ho, Option.map_some]
  have hfields : o.toJson.member? "fields" = some (o.fields.toJson FieldDef.toJson) :=
    Json.member?_record _ _
  have hfield : (o.fields.toJson FieldDef.toJson).member? field = some f.toJson := by
    rw [OrderedMap.member?_toJson, hf, Option.map_some]
  rw [Json.at?_cons_of_eq hobjects, Json.at?_cons_of_eq hobject, Json.at?_cons_of_eq hfields,
    Json.at?_cons_of_eq hfield]

end SchemaCatalog
