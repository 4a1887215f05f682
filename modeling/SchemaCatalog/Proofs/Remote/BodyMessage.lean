import SchemaCatalog.Proofs.Json.Agreement
import SchemaCatalog.Proofs.Remote.Outcome

/-!
# SchemaCatalog.Proofs.Remote.BodyMessage

Which bodies of failed answers hold a message, for every text.

Whether a text is JSON, and what it denotes, is said by the grammar. A body has a message as the
only member of that name of an object, whatever the other members are. A list of one text is read
as the fields of that object in their order, and then its text is taken for the message: that is
the one case in which a body without a message gives one (`bodyMessage_meets_iff`).
-/

namespace SchemaCatalog.Remote

open RequestFailure (ofResponse)

/-- The whole body is an object whose names are texts. One member and no other has the name of the
message, and its value is this text. -/
def HasMessage (body message : String) : Prop :=
  ∃ members : List (String × Json), Json.Denotes body (.record members) ∧
    members.filter (·.1 = "message") = [("message", .text message)]

/-- The whole body is a list of this text alone. -/
def IsLoneText (body message : String) : Prop := Json.Denotes body (.array [.text message])

theorem exists_named {members : List (Option String × Json)}
    (h : ∀ member ∈ members, member.1.isSome = true) :
    ∃ named : List (String × Json),
      members = named.map fun member => (some member.1, member.2) := by
  induction members with
  | nil => exact ⟨[], rfl⟩
  | cons member rest ih =>
    obtain ⟨hmember, hrest⟩ := List.forall_mem_cons.1 h
    obtain ⟨named, rfl⟩ := ih hrest
    obtain ⟨key, hkey⟩ := Option.isSome_iff_exists.1 hmember
    exact ⟨(key, member.2) :: named, by rw [List.map_cons, ← hkey]⟩

theorem filter_eq_singleton_iff {members : List (String × Json)} {key : String} {value : Json} :
    members.filter (·.1 = key) = [(key, value)] ↔
      Json.membersNamed key (members.map fun member => (some member.1, member.2)) = [value] := by
  rw [Json.membersNamed_texts]
  constructor
  · intro h
    rw [h]
    rfl
  · intro h
    obtain ⟨member, hfilter, rfl⟩ := List.map_eq_singleton_iff.1 h
    have hmem : member ∈ members.filter (·.1 = key) := by
      rw [hfilter]
      exact List.mem_singleton_self member
    have hkey : member.1 = key := by simpa using (List.mem_filter.1 hmem).2
    rw [hfilter, ← hkey]

/-- What tells a message among the values: an object that has it, or a list of it alone. -/
theorem exists_tells_iff {body message : String} :
    (∃ value, Json.read? body = some value ∧ Tells value message) ↔
      HasMessage body message ∨ IsLoneText body message := by
  simp only [HasMessage, IsLoneText, Json.denotes_iff]
  constructor
  · rintro ⟨value, hread, htells⟩
    cases htells with
    | member keys only =>
      obtain ⟨named, rfl⟩ := exists_named keys
      exact .inl ⟨named, hread, filter_eq_singleton_iff.2 only⟩
    | item => exact .inr hread
  · rintro (⟨named, hread, hfilter⟩ | hread)
    · refine ⟨_, hread, .member (fun member hmember => ?_) (filter_eq_singleton_iff.1 hfilter)⟩
      obtain ⟨_, _, rfl⟩ := List.mem_map.1 hmember
      rfl
    · exact ⟨_, hread, .item message⟩

theorem bodyMessage_eq_some {status : Nat} {body message : String} :
    (ofResponse status body).bodyMessage = some message ↔
      HasMessage body message ∨ IsLoneText body message := by
  rw [← exists_tells_iff, ofResponse, Option.bind_eq_some_iff]
  simp only [messageOf?_eq_some]

/-- A list is no object. -/
theorem not_hasMessage_of_isLoneText {body message other : String} (h : IsLoneText body message) :
    ¬ HasMessage body other := by
  rintro ⟨members, hmembers, _⟩
  rw [Json.denotes_iff] at hmembers
  rw [IsLoneText, Json.denotes_iff, hmembers] at h
  cases h

/-- For every status and every body: which message the body gives, and what is the message of the
failure when it gives none. The body gives a message just when it has one, exactly for those bodies
that are not a list of one text. -/
theorem bodyMessage_meets_iff (status : Nat) (body : String) :
    (∀ message, (ofResponse status body).bodyMessage = some message ↔
      HasMessage body message ∨ IsLoneText body message) ∧
    (∀ message, (ofResponse status body).bodyMessage = some message →
      (ofResponse status body).message = message) ∧
    ((ofResponse status body).bodyMessage = none → (ofResponse status body).message =
      (Http.reasonPhrase? status).getD ("Request failed with status code " ++ toString status)) ∧
    ((∀ message, (ofResponse status body).bodyMessage = some message ↔ HasMessage body message) ↔
      ∀ message, ¬ IsLoneText body message) := by
  have hmessage : (ofResponse status body).message =
      ((ofResponse status body).bodyMessage.or (Http.reasonPhrase? status)).getD
        ("Request failed with status code " ++ toString status) := rfl
  refine ⟨fun message => bodyMessage_eq_some, fun message h => ?_, fun h => ?_, fun h message => ?_,
    fun h message => ?_⟩
  · rw [hmessage, h]
    rfl
  · rw [hmessage, h]
    rfl
  · intro hlone
    have hgiven := (h message).1 (bodyMessage_eq_some.2 (.inr hlone))
    exact not_hasMessage_of_isLoneText hlone hgiven
  · rw [bodyMessage_eq_some]
    exact or_iff_left (h message)

/-- A list of one text has no message and gives one all the same. -/
theorem bodyMessage_of_list :
    (ofResponse 500 "[\"x\"]").bodyMessage = some "x" ∧
      ∀ message, ¬ HasMessage "[\"x\"]" message := by
  have hgiven : (ofResponse 500 "[\"x\"]").bodyMessage = some "x" := by
    decide +kernel
  refine ⟨hgiven, fun message hmessage => ?_⟩
  obtain ⟨members, hmembers, _⟩ := hmessage
  have hread : Json.read? "[\"x\"]" = some (.array [.text "x"]) := by cbv
  rw [Json.denotes_iff, hread] at hmembers
  cases hmembers

end SchemaCatalog.Remote
