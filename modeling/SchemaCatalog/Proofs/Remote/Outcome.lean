import SchemaCatalog.Proofs.Remote.Request
import SchemaCatalog.Proofs.Text.LetterCase
import SchemaCatalog.Proofs.Text.Utf8

/-!
# SchemaCatalog.Proofs.Remote.Outcome

How a fetch ends, for every way in which the exchange behind it can end.

The exchange has a final answer or none (`send_eq_ok_iff`). A success with its whole body is the
schema text; everything else is a failure with a status, if there was one, and a base message, and
these two alone tell what is returned and reported (`failsWith_report`). Whether the message is
about a missing schema is a search in its small form, which has the length of the message only in
ASCII. It finds what a search up to capital ASCII letters finds (`isSchemaMissing_iff`), since the
phrase has neither an i nor a k.
-/

namespace SchemaCatalog.Remote

open Http (Exchanged Fault Request Response Server)
open Text.LetterCase (SmallForm IsOwn asciiLower)
open RequestFailure (missingPhrase)

/-! ## Final answers -/

/-- The last of these requests is the one at this URL, and this is its answer, which sends the
request nowhere else. -/
def IsFinal (server : Server) (requests : List Request) (response : Response) (url : Url) : Prop :=
  ∃ earlier request, requests = earlier ++ [request] ∧ request.url = url ∧
    server earlier request = some response ∧ Http.isInterim response.status = false ∧
    Http.redirection? url response = none

section Final

variable {server : Server} {earlier : List Request} {request : Request} {response : Response}
  {url : Url}

theorem isFinal_concat : IsFinal server (earlier ++ [request]) response url ↔
    request.url = url ∧ server earlier request = some response ∧
      Http.isInterim response.status = false ∧ Http.redirection? url response = none := by
  constructor
  · rintro ⟨before, last, heq, h⟩
    obtain ⟨rfl, hlast⟩ := List.append_inj' heq rfl
    rw [List.singleton_inj.1 hlast]
    exact h
  · intro h
    exact ⟨earlier, request, rfl, h⟩

/-- Sending ends well just when the last of the requests is answered for good. -/
theorem send_eq_ok_iff {hops : Nat} :
    (Http.send server hops earlier request).result = .ok (response, url) ↔
      IsFinal server (Http.send server hops earlier request).requests response url := by
  fun_induction Http.send server hops earlier request with
  | case1 hops earlier request sent hnone => simp [sent, isFinal_concat, hnone]
  | case2 hops earlier request sent answer hanswer hinterim =>
    -- There is an answer, but an interim one is not final.
    simp only [sent, isFinal_concat, hanswer, reduceCtorEq, false_iff]
    rintro ⟨-, heq, hfinal, -⟩
    cases heq
    rw [hinterim] at hfinal
    cases hfinal
  | case3 hops earlier request sent answer hanswer hinterim hstay =>
    simp only [sent, isFinal_concat, hanswer, Except.ok.injEq, Prod.mk.injEq, Option.some.injEq]
    constructor
    · rintro ⟨rfl, rfl⟩
      exact ⟨rfl, rfl, by simpa using hinterim, hstay⟩
    · rintro ⟨rfl, rfl, -⟩
      exact ⟨rfl, rfl⟩
  | case5 earlier request sent answer hanswer hinterim next hnext hops hsend ih => exact ih
  | case4 earlier request sent answer hanswer _ next hnext =>
    -- The answer leads on, and the run stops all the same.
    simp only [sent, isFinal_concat, hanswer, reduceCtorEq, false_iff]
    rintro ⟨rfl, heq, -, hstay⟩
    cases heq
    rw [hnext] at hstay
    cases hstay
  | case6 earlier request sent answer hanswer _ next hnext =>
    simp only [sent, isFinal_concat, hanswer, reduceCtorEq, false_iff]
    rintro ⟨rfl, heq, -, hstay⟩
    cases heq
    rw [hnext] at hstay
    cases hstay

end Final

/-- What comes of asking a server for a path: the final answer and the URL that gave it, or why
there is none. -/
def exchange (server : Server) (client : Client) (path : String) :
    Exchanged (Except Fault (Response × Url)) :=
  match client.request path mediaType with
  | .error fault => ⟨.error fault, []⟩
  | .ok request => Http.send server Http.maxHops [] request

theorem exchange_eq_ok_iff {server : Server} {client : Client} {path : String}
    {response : Response} {url : Url} :
    (exchange server client path).result = .ok (response, url) ↔
      IsFinal server (exchange server client path).requests response url := by
  rw [exchange]
  cases client.request path mediaType with
  | error fault =>
    simp only [reduceCtorEq, false_iff]
    rintro ⟨earlier, request, hnil, -⟩
    simp at hnil
  | ok request => exact send_eq_ok_iff

/-! ## Bodies -/

/-- The body of an answer, if it is there to its end. -/
def received? (response : Response) : Option ByteArray :=
  if Http.isBodiless response.status then some .empty
  else if response.complete then some response.body
  else none

theorem text?_eq (response : Response) :
    response.text? = (received? response).map Text.Utf8.decode := by
  have hempty : Text.Utf8.decode .empty = "" := by decide +kernel
  rw [Response.text?, received?]
  split
  · rw [Option.map_some, hempty]
  · split <;> rfl

/-- A body that tells this message: an object of that one member, among others, or an array of
that one item. -/
inductive Tells : Json → String → Prop
  | member {members : List (Option String × Json)} {message : String}
      (keys : ∀ member ∈ members, member.1.isSome = true)
      (only : Json.membersNamed "message" members = [.text message]) :
      Tells (.object members) message
  | item (message : String) : Tells (.array [.text message]) message

theorem messageText?_eq_some {value : Json} {message : String} :
    RequestFailure.messageText? value = some message ↔ value = .text message := by
  cases value <;> simp [RequestFailure.messageText?, Json.text]

theorem messageOf?_eq_some {body : Json} {message : String} :
    RequestFailure.messageOf? body = some message ↔ Tells body message := by
  constructor
  · intro h
    unfold RequestFailure.messageOf? at h
    split at h
    · rename_i members
      split at h
      · cases h
      · rename_i hkeys
        split at h
        · rename_i value honly
          rw [messageText?_eq_some] at h
          refine .member (fun member hmember => ?_) (by rw [honly, h])
          rw [Bool.not_eq_true, List.any_eq_false] at hkeys
          simpa [Option.isSome_iff_ne_none] using hkeys member hmember
        · cases h
    · rw [messageText?_eq_some] at h
      rw [h]
      exact .item message
    · cases h
  · intro h
    cases h with
    | @member members message keys only =>
      have hkeys : members.any (·.1.isNone) = false := by
        rw [List.any_eq_false]
        intro member hmember
        simpa [Option.isSome_iff_ne_none] using keys member hmember
      rw [RequestFailure.messageOf?, hkeys, only]
      exact messageText?_eq_some.2 rfl
    | item message => exact messageText?_eq_some.2 rfl

/-- The base message of an answer with this status and this text as its body. -/
inductive BaseMessage (status : Nat) (body : String) : String → Prop
  | told {value : Json} {message : String} (read : Json.read? body = some value)
      (tells : Tells value message) : BaseMessage status body message
  | phrase {message : String}
      (silent : ∀ value message, Json.read? body = some value → ¬ Tells value message)
      (known : Http.reasonPhrase? status = some message) : BaseMessage status body message
  | code (silent : ∀ value message, Json.read? body = some value → ¬ Tells value message)
      (unknown : Http.reasonPhrase? status = none) :
      BaseMessage status body ("Request failed with status code " ++ toString status)

theorem baseMessage_iff {status : Nat} {body message : String} :
    BaseMessage status body message ↔
      message = (RequestFailure.ofResponse status body).message := by
  rw [RequestFailure.ofResponse, RequestFailure.message]
  cases hmessage : (Json.read? body).bind RequestFailure.messageOf? with
  | some own =>
    obtain ⟨value, hread, htells⟩ := Option.bind_eq_some_iff.1 hmessage
    rw [messageOf?_eq_some] at htells
    constructor
    · intro h
      cases h with
      | told hread' htells' =>
        rw [hread, Option.some.injEq] at hread'
        rw [hread', ← messageOf?_eq_some, messageOf?_eq_some.2 htells'] at htells
        exact Option.some.inj htells
      | phrase silent | code silent => exact absurd htells (silent value own hread)
    · rintro rfl
      exact .told hread htells
  | none =>
    have hsilent : ∀ value message, Json.read? body = some value → ¬ Tells value message := by
      intro value message hread htells
      rw [hread, Option.bind_some, messageOf?_eq_some.2 htells] at hmessage
      cases hmessage
    constructor
    · intro h
      cases h with
      | told hread htells => exact absurd htells (hsilent _ _ hread)
      | phrase _ known =>
        rw [known]
        rfl
      | code _ unknown =>
        rw [unknown]
        rfl
    · rintro rfl
      cases hphrase : Http.reasonPhrase? status with
      | some phrase => exact .phrase hsilent hphrase
      | none => exact .code hsilent hphrase

/-! ## Messages about a missing schema -/

/-- Somewhere in the message stands the phrase, each letter in capitals or not. -/
def SaysMissing (message : String) : Prop :=
  ∃ piece, piece <:+: message.toList ∧ piece.map asciiLower = missingPhrase

theorem missingPhrase_infix_iff {message : String} {small : List Char}
    (h : SmallForm message.toList small) : missingPhrase <:+: small ↔ SaysMissing message :=
  h.infix_iff (by decide) (Text.LetterCase.forall_of_all (by decide))

theorem isSchemaMissing_iff (failure : RequestFailure) : failure.isSchemaMissing = true ↔
    failure.status = some 404 ∨ SaysMissing failure.message := by
  rw [RequestFailure.isSchemaMissing, Bool.or_eq_true, decide_eq_true_eq,
    @decide_eq_true_eq _ (List.instDecidableIsInfixOfDecidableEq _ _),
    missingPhrase_infix_iff (Text.LetterCase.smallForm_lowerText _)]

/-! ## Outcomes -/

/-- A fetch ends with a schema text, after these events. -/
def EndsWith (run : Logged (Exchanged (Except RemoteError String))) (before : List Event)
    (text : String) : Prop :=
  ∃ event, run.value.result = .ok text ∧ run.events = before ++ [event] ∧
    (∀ e ∈ before, e.level = .debug) ∧
    event = .schemaFetched text.utf8ByteSize ∧ event.level = .info

/-- A fetch ends in a failure with this status and this base message, after these events. It is
reported once, and how depends on whether the schema is only missing. -/
def FailsWith (run : Logged (Exchanged (Except RemoteError String))) (before : List Event)
    (status : Option Nat) (base : String) : Prop :=
  ∃ error event, run.value.result = .error error ∧ run.events = before ++ [event] ∧
    (∀ e ∈ before, e.level = .debug) ∧
    error.status = status ∧
    (error.recoverable = true ↔ status = some 404 ∨ SaysMissing base) ∧
    error.message = base ++ (if error.recoverable then deployHint else "") ∧
    event = (if error.recoverable then .schemaMissing status else .fetchFailed status base) ∧
    event.level = (if error.recoverable then .warn else .error)

theorem report_error (failure : RequestFailure) : report (.error failure) =
    ⟨.error failure.classify,
      [if failure.isSchemaMissing then .schemaMissing failure.status
        else .fetchFailed failure.status failure.message]⟩ := by
  rw [report, RequestFailure.classify]
  cases failure.isSchemaMissing with
  | true => rfl
  | false =>
    simp only [Bool.false_eq_true, if_false, String.append_empty]
    rfl

theorem failsWith_report {run : Logged (Exchanged (Except RemoteError String))}
    {before : List Event} (failure : RequestFailure)
    (hresult : run.value.result = (report (.error failure)).value)
    (hevents : run.events = before ++ (report (.error failure)).events)
    (hbefore : ∀ e ∈ before, e.level = .debug) :
    FailsWith run before failure.status failure.message := by
  rw [report_error] at hresult hevents
  refine ⟨failure.classify, _, hresult, hevents, hbefore, rfl, isSchemaMissing_iff failure, rfl,
    rfl, ?_⟩
  rw [RequestFailure.classify]
  cases failure.isSchemaMissing <;> rfl

section Fetch

variable (server : Server) (client : Client) (config : Config)

theorem fetchSchema_of_fault {fault : Fault}
    (h : (exchange server client (schemaPath client.dataset config.graphqlApi)).result =
      .error fault) :
    (fetchSchema server client config).value.result =
        (report (.error (.transport fault.message))).value ∧
      (fetchSchema server client config).events =
        [.schemaRequested (schemaPath client.dataset config.graphqlApi)] ++
          (report (.error (.transport fault.message))).events := by
  rw [exchange] at h
  rw [fetchSchema, fetchSchemaBy, requestSchema, askSchema]
  cases hrequest : client.request (schemaPath client.dataset config.graphqlApi) mediaType with
  | error fault' =>
    rw [hrequest] at h
    cases h
    simp [Logged.emit]
  | ok request =>
    rw [hrequest] at h
    simp [Logged.emit, h]

theorem fetchSchema_of_answer {response : Response} {url : Url}
    (h : (exchange server client (schemaPath client.dataset config.graphqlApi)).result =
      .ok (response, url)) :
    (fetchSchema server client config).value.result = (report (schemaIn response url)).value ∧
      (fetchSchema server client config).events =
        [.schemaRequested (schemaPath client.dataset config.graphqlApi),
          .responseReceived response.status] ++ (report (schemaIn response url)).events := by
  rw [exchange] at h
  rw [fetchSchema, fetchSchemaBy, requestSchema, askSchema]
  cases hrequest : client.request (schemaPath client.dataset config.graphqlApi) mediaType with
  | error fault =>
    rw [hrequest] at h
    cases h
  | ok request =>
    rw [hrequest] at h
    simp [Logged.emit, h]

theorem requests_eq_exchange : (fetchSchema server client config).value.requests =
    (exchange server client (schemaPath client.dataset config.graphqlApi)).requests := by
  rw [requests_fetchSchema, exchange]
  cases client.request (schemaPath client.dataset config.graphqlApi) mediaType <;> rfl

section Answer

variable {server client config} {response : Response} {url : Url}
  (final : IsFinal server (fetchSchema server client config).value.requests response url)
include final

theorem result_of_final :
    (exchange server client (schemaPath client.dataset config.graphqlApi)).result =
      .ok (response, url) := by
  rw [requests_eq_exchange] at final
  exact exchange_eq_ok_iff.2 final

theorem endsWith_of_received {body : ByteArray}
    (hsuccess : 200 ≤ response.status ∧ response.status < 300)
    (hbody : received? response = some body) :
    EndsWith (fetchSchema server client config)
      [.schemaRequested (schemaPath client.dataset config.graphqlApi),
        .responseReceived response.status] (Text.Utf8.decode body) := by
  obtain ⟨hresult, hevents⟩ := fetchSchema_of_answer server client config (result_of_final final)
  have hin : schemaIn response url = .ok (Text.Utf8.decode body) := by
    simp [schemaIn, Http.isSuccess, hsuccess, text?_eq, hbody]
  rw [hin] at hresult hevents
  exact ⟨_, hresult, hevents, by simp [Event.level], rfl, rfl⟩

/-- A success whose body breaks off is a failure without a status. -/
theorem failsWith_of_broken (hsuccess : 200 ≤ response.status ∧ response.status < 300)
    (hbody : received? response = none) :
    FailsWith (fetchSchema server client config)
      [.schemaRequested (schemaPath client.dataset config.graphqlApi),
        .responseReceived response.status] none (Fault.decoding url).message := by
  obtain ⟨hresult, hevents⟩ := fetchSchema_of_answer server client config (result_of_final final)
  have hin : schemaIn response url = .error (.transport (Fault.decoding url).message) := by
    simp [schemaIn, Http.isSuccess, hsuccess, text?_eq, hbody]
  rw [hin] at hresult hevents
  exact failsWith_report _ hresult hevents (by simp [Event.level])

theorem failsWith_of_status (hfailure : ¬ (200 ≤ response.status ∧ response.status < 300)) :
    FailsWith (fetchSchema server client config)
      [.schemaRequested (schemaPath client.dataset config.graphqlApi),
        .responseReceived response.status] (some response.status)
      (RequestFailure.ofResponse response.status
        (((received? response).map Text.Utf8.decode).getD "")).message := by
  obtain ⟨hresult, hevents⟩ := fetchSchema_of_answer server client config (result_of_final final)
  have hin : schemaIn response url = .error (.ofResponse response.status
      (((received? response).map Text.Utf8.decode).getD "")) := by
    rw [schemaIn, if_neg (by simpa [Http.isSuccess] using hfailure), text?_eq]
  rw [hin] at hresult hevents
  exact failsWith_report _ hresult hevents (by simp [Event.level])

end Answer

theorem failsWith_of_unanswered
    (hnone : ¬ ∃ response url,
      IsFinal server (fetchSchema server client config).value.requests response url) :
    ∃ fault, (exchange server client (schemaPath client.dataset config.graphqlApi)).result =
        .error fault ∧
      FailsWith (fetchSchema server client config)
        [.schemaRequested (schemaPath client.dataset config.graphqlApi)] none fault.message := by
  rw [requests_eq_exchange] at hnone
  cases hexchange : (exchange server client
      (schemaPath client.dataset config.graphqlApi)).result with
  | ok answer => exact absurd ⟨answer.1, answer.2, exchange_eq_ok_iff.1 hexchange⟩ hnone
  | error fault =>
    obtain ⟨hresult, hevents⟩ := fetchSchema_of_fault server client config hexchange
    exact ⟨fault, rfl, failsWith_report _ hresult hevents (by simp [Event.level])⟩

theorem failsWith_of_no_client (cause : String) :
    (fetchSchemaBy (.error cause) client config).value.requests = [] ∧
      FailsWith (fetchSchemaBy (.error cause) client config) [] none
        ("Failed to create HTTP client: " ++ cause) := by
  have hevents : (fetchSchemaBy (.error cause) client config).events =
      (report (.error (.transport ("Failed to create HTTP client: " ++ cause)))).events := by
    simp [fetchSchemaBy, requestSchema]
  exact ⟨rfl, failsWith_report (.transport ("Failed to create HTTP client: " ++ cause)) rfl hevents
    (by simp)⟩

end Fetch

/-- How every fetch ends. A final answer that is a success gives the schema text when all of its
body is there. Any other final answer is a failure with its status, and without a final answer
there is no status, nor without an HTTP client, when nothing is asked. What is searched for the
phrase may be any small form of the message. -/
theorem fetchSchema_outcome (server : Server) (client : Client) (config : Config) :
    let path := schemaPath client.dataset config.graphqlApi
    let run := fetchSchema server client config
    (∀ response url, IsFinal server run.value.requests response url →
      let before := [.schemaRequested path, .responseReceived response.status]
      (200 ≤ response.status ∧ response.status < 300 →
        (∀ body, received? response = some body →
          EndsWith run before (Text.Utf8.decode body) ∧
            ∀ text : String, body = text.toUTF8 → EndsWith run before text) ∧
        (received? response = none →
          FailsWith run before none (Fault.decoding url).message)) ∧
      (¬ (200 ≤ response.status ∧ response.status < 300) →
        let body := ((received? response).map Text.Utf8.decode).getD ""
        ∃ base, (∀ message, BaseMessage response.status body message ↔ message = base) ∧
          FailsWith run before (some response.status) base)) ∧
    ((¬ ∃ response url, IsFinal server run.value.requests response url) →
      ∃ fault, (exchange server client path).result = .error fault ∧
        FailsWith run [.schemaRequested path] none fault.message) ∧
    (∀ cause, (fetchSchemaBy (.error cause) client config).value.requests = [] ∧
      FailsWith (fetchSchemaBy (.error cause) client config) [] none
        ("Failed to create HTTP client: " ++ cause)) ∧
    ∀ (message : String) (small : List Char), SmallForm message.toList small →
      (missingPhrase <:+: small ↔ SaysMissing message) := by
  refine ⟨fun response url final => ⟨fun hsuccess => ⟨fun body hbody => ?_, ?_⟩, ?_⟩, ?_, ?_, ?_⟩
  · have hends := endsWith_of_received final hsuccess hbody
    refine ⟨hends, ?_⟩
    rintro text rfl
    rw [Text.Utf8.decode_toUTF8] at hends
    exact hends
  · exact failsWith_of_broken final hsuccess
  · exact fun hfailure => ⟨_, fun _ => baseMessage_iff, failsWith_of_status final hfailure⟩
  · exact failsWith_of_unanswered server client config
  · exact failsWith_of_no_client client config
  · exact fun _ _ => missingPhrase_infix_iff

/-- An answer from a server that has trouble of its own, and says that there is no schema. Around
the phrase are letters whose small forms are longer or depend on their place. -/
def troubled : Response :=
  ⟨503, [], "\x7b\"message\":\"İSchema NOT FoundΣ\"\x7d".toUTF8, true⟩

theorem fetchSchema_outcome_troubled :
    let config : Config := ⟨"p", "d", "a", none, some "http://h", none, none⟩
    let run := fetchSchema (fun _ _ => some troubled) (Client.ofConfig config) config
    let url : Url := ⟨"http", "", "", some "h", none, .segments ["apis", "graphql", "d", "a"],
      none, none⟩
    IsFinal (fun _ _ => some troubled) run.value.requests troubled url ∧
      FailsWith run [.schemaRequested "/apis/graphql/d/a", .responseReceived 503] (some 503)
        "İSchema NOT FoundΣ" := by
  intro config run url
  have hrequests : run.value.requests = [⟨url, [("accept", "application/graphql")]⟩] := by
    decide +kernel
  have hfinal : IsFinal (fun _ _ => some troubled) run.value.requests troubled url := by
    rw [hrequests]
    exact ⟨[], _, rfl, rfl, rfl, by decide, by decide +kernel⟩
  obtain ⟨base, hbase, hfails⟩ := ((fetchSchema_outcome (fun _ _ => some troubled)
    (Client.ofConfig config) config).1 troubled url hfinal).2 (by decide)
  have hmessage : (RequestFailure.ofResponse 503 (((received? troubled).map
      Text.Utf8.decode).getD "")).message = "İSchema NOT FoundΣ" := by
    decide +kernel
  rw [(hbase base).2 rfl |> baseMessage_iff.1 |>.trans hmessage] at hfails
  exact ⟨hfinal, hfails⟩

end SchemaCatalog.Remote
