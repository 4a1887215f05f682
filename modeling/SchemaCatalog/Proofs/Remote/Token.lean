import SchemaCatalog.Proofs.Config.Token
import SchemaCatalog.Proofs.Remote.Request
import Mathlib.Data.List.Forall2

/-!
# SchemaCatalog.Proofs.Remote.Token

Fetches with configurations that differ by their tokens.

The token goes into one header field of the requests and nowhere else. A server that does not look
at that field gives the same answers, and then both fetches follow the same redirections
(`send_twins`, by induction on how many there may be): request by request they go to the same
place, with the header of their own token or, on another host, without one. So events and results
are the same too (`fetchSchemaBy_alike`).
-/

namespace SchemaCatalog.Remote

open Http (Server Request Exchanged)
open Logged (Alike)

/-! ## Requests that differ by who asks -/

/-- Header fields without those that say who asks. -/
def withoutUser (headers : List (String × String)) : List (String × String) :=
  headers.filter fun field => field.1 ≠ "authorization"

/-- Two requests differ by who asks at most. -/
structure SameButUser (r r' : Request) : Prop where
  url : r'.url = r.url
  headers : withoutUser r'.headers = withoutUser r.headers

/-- Two servers give the same answers to requests that differ by who asks at most. -/
def AnswerAlike (server server' : Server) : Prop :=
  ∀ earlier earlier' r r', List.Forall₂ SameButUser earlier earlier' → SameButUser r r' →
    server' earlier' r' = server earlier r

/-- Two requests of two fetches at a URL, each with a token of its own. They go to the same place
with the header of their fetch, or on another host with nothing that says who asks. -/
structure Twins (full : Url) (token token' : Option String) (r r' : Request) : Prop where
  url : r'.url = r.url
  headers : r.headers = Client.header token full ∧ r'.headers = Client.header token' full ∨
    r.headers = [("accept", mediaType)] ∧ r'.headers = [("accept", mediaType)]

/-- What stays of a header when the fields that say who asks go. -/
theorem Client.filter_header {p : String → Bool} (huser : p "authorization" = false)
    (haccept : p "accept" = true) (token : Option String) (full : Url) :
    ((Client.header token full).filter fun field => p field.1) = [("accept", mediaType)] := by
  have hfull : ((userField full).filter fun field => p field.1) = [] :=
    List.filter_eq_nil_iff.2 fun field hfield => by
      rw [(of_mem_userField hfield).1, huser]
      decide
  have hbearer : ((bearerField token).filter fun field => p field.1) = [] := by
    cases token with
    | none => rfl
    | some token => simp [bearerField, huser]
  rw [header, List.filter_append, List.filter_append, hfull, hbearer]
  simp [haccept]

namespace Twins

variable {full : Url} {token token' : Option String} {r r' : Request}

theorem sameButUser (h : Twins full token token' r r') : SameButUser r r' := by
  refine ⟨h.url, ?_⟩
  rcases h.headers with ⟨hr, hr'⟩ | ⟨hr, hr'⟩
  · have hfilter : ∀ token, withoutUser (Client.header token full) = [("accept", mediaType)] :=
      fun token => Client.filter_header (p := (· ≠ "authorization")) (by decide) (by decide) _ _
    rw [hr, hr', hfilter, hfilter]
  · rw [hr, hr']

theorem redirect (h : Twins full token token' r r') (next : Url) :
    Twins full token token' (r.redirect next) (r'.redirect next) := by
  refine ⟨rfl, ?_⟩
  simp only [Request.redirect, h.url]
  cases Http.isSameHost r.url next with
  | true => exact h.headers
  | false =>
    refine .inr ?_
    rcases h.headers with ⟨hr, hr'⟩ | ⟨hr, hr'⟩
    · have hfilter : ∀ token, (Client.header token full).filter
          (fun field => !Http.privateFields.contains field.1) = [("accept", mediaType)] :=
        fun token => Client.filter_header (p := (!Http.privateFields.contains ·)) (by decide)
          (by decide) _ _
      rw [hr, hr']
      exact ⟨hfilter token, hfilter token'⟩
    · rw [hr, hr']
      decide

end Twins

section Send

variable {server server' : Server} (same : AnswerAlike server server') {full : Url}
  {token token' : Option String}
include same

theorem AnswerAlike.twins {earlier earlier' : List Request} {r r' : Request}
    (hearlier : List.Forall₂ (Twins full token token') earlier earlier')
    (h : Twins full token token' r r') : server' earlier' r' = server earlier r :=
  same _ _ _ _ (hearlier.imp fun _ _ => Twins.sameButUser) h.sameButUser

theorem send_twins (hops : Nat) (earlier : List Request) (r : Request) :
    ∀ {earlier' : List Request} {r' : Request},
      List.Forall₂ (Twins full token token') earlier earlier' → Twins full token token' r r' →
      (Http.send server' hops earlier' r').result = (Http.send server hops earlier r).result ∧
        List.Forall₂ (Twins full token token') (Http.send server hops earlier r).requests
          (Http.send server' hops earlier' r').requests := by
  fun_induction Http.send server hops earlier r
  all_goals
    intro earlier' r' hearlier h
    have hsent := List.rel_append hearlier (.cons h .nil)
    rw [Http.send, same.twins hearlier h, h.url]
  case case1 hnone =>
    simp only [hnone]
    exact ⟨trivial, hsent⟩
  case case2 hresponse hinterim =>
    simp only [hresponse, hinterim, if_true]
    exact ⟨trivial, hsent⟩
  case case3 hresponse hinterim hstay =>
    simp only [hresponse, hinterim, hstay]
    exact ⟨rfl, hsent⟩
  case case4 hresponse hinterim next hnext =>
    simp only [hresponse, hinterim, hnext]
    exact ⟨rfl, hsent⟩
  case case5 hresponse hinterim next hnext hops hsendable ih =>
    -- Both go on to the same place, with what they have sent behind them.
    simp only [hresponse, hinterim, hnext, hsendable, if_true]
    exact ih hsent (h.redirect next)
  case case6 hresponse hinterim next hnext hops hsendable =>
    simp only [hresponse, hinterim, hnext, hsendable]
    exact ⟨rfl, hsent⟩

end Send

/-! ## Fetches -/

/-- The first requests of two fetches: both go to the URL of the schema, each with the whole header
for its token. -/
structure FirstRequests (c c' : Config) (full : Url) (r r' : Request) : Prop where
  parsed : Url.parse? (Config.withoutTrailingSlashes c.apiUrl ++
    schemaPath c.dataset c.graphqlApi) = some full
  first : r = ⟨Client.place full, Client.header c.token full⟩
  first' : r' = ⟨Client.place full, Client.header c'.token full⟩

/-- The requests of two fetches for the schema that two configurations name: none, or the first
ones with those that follow redirections behind them. -/
inductive SentFor (c c' : Config) : List Request → List Request → Prop where
  | nothing : SentFor c c' [] []
  | schema {full : Url} {r r' : Request} {later later' : List Request}
      (first : FirstRequests c c' full r r')
      (redirected : List.Forall₂ (Twins full c.token c'.token) later later') :
      SentFor c c' (r :: later) (r' :: later')

/-- The same result, and the requests for two configurations. -/
structure Fetched {α : Type} (c c' : Config) (fetched fetched' : Exchanged α) : Prop where
  result : fetched'.result = fetched.result
  requests : SentFor c c' fetched.requests fetched'.requests

section Apart

variable {c c' : Config} (apart : Config.TokensApart c c')
include apart

theorem Client.refusesToken_of_apart : refusesToken c'.token = refusesToken c.token := by
  have hrefuses : ∀ token, refusesToken token = !token.all Http.isFieldValue := by
    intro token
    cases token <;> rfl
  rw [hrefuses, hrefuses, apart.sendable]

/-- What keeps one request from being made keeps the other one from it. -/
theorem Client.request_apart : Agree (fun r r' => ∃ full, FirstRequests c c' full r r')
    ((ofConfig c).request (schemaPath c.dataset c.graphqlApi) mediaType)
    ((ofConfig c').request (schemaPath c.dataset c.graphqlApi) mediaType) := by
  rw [request_ofConfig, request_ofConfig, apart.apiUrl_eq, refusesToken_of_apart apart]
  cases hparsed : Url.parse? (Config.withoutTrailingSlashes c.apiUrl ++
      schemaPath c.dataset c.graphqlApi) with
  | none => exact .error _
  | some full =>
    simp only
    by_cases hhost : full.host.isNone = true
    · rw [if_pos hhost, if_pos hhost]
      exact .error _
    rw [if_neg hhost, if_neg hhost]
    by_cases hrefused : refusesToken c.token = true
    · rw [if_pos hrefused, if_pos hrefused]
      exact .error _
    rw [if_neg hrefused, if_neg hrefused]
    by_cases hscheme : (!Http.isSendable full) = true
    · rw [if_pos hscheme, if_pos hscheme]
      exact .error _
    rw [if_neg hscheme, if_neg hscheme]
    exact .ok ⟨full, hparsed, rfl, rfl⟩

end Apart

theorem FirstRequests.twins {c c' : Config} {full : Url} {r r' : Request}
    (h : FirstRequests c c' full r r') : Twins full c.token c'.token r r' := by
  rw [h.first, h.first']
  exact ⟨rfl, .inl ⟨rfl, rfl⟩⟩

section Fetch

variable {server server' : Server} (same : AnswerAlike server server') {c c' : Config}
  (apart : Config.TokensApart c c')
include same

theorem send_first {full : Url} {r r' : Request} (h : FirstRequests c c' full r r') :
    Fetched c c' (Http.send server Http.maxHops [] r) (Http.send server' Http.maxHops [] r') := by
  obtain ⟨hresult, htwins⟩ := send_twins same Http.maxHops [] r .nil h.twins
  obtain ⟨later, hlater⟩ := requests_send server Http.maxHops [] r
  obtain ⟨later', hlater'⟩ := requests_send server' Http.maxHops [] r'
  rw [hlater, hlater'] at htwins
  refine ⟨hresult, ?_⟩
  rw [hlater, hlater']
  exact .schema h (List.forall₂_cons.1 htwins).2

include apart

theorem askSchema_alike : Alike (Fetched c c')
    (askSchema server (.ofConfig c) (schemaPath c.dataset c.graphqlApi))
    (askSchema server' (.ofConfig c') (schemaPath c.dataset c.graphqlApi)) := by
  rw [askSchema, askSchema]
  refine .after _ fun _ => ?_
  have hrequest := Client.request_apart apart
  generalize (Client.ofConfig c).request _ _ = request at hrequest
  generalize (Client.ofConfig c').request _ _ = request' at hrequest
  cases hrequest with
  | error fault => exact .pure ⟨rfl, .nothing⟩
  | ok related =>
    obtain ⟨full, hfirst⟩ := related
    obtain ⟨hresult, hsent⟩ := send_first same hfirst
    simp only [hresult]
    split
    · exact .pure ⟨rfl, hsent⟩
    · exact .after _ fun _ => .pure ⟨rfl, hsent⟩

end Fetch

/-- Either fetch has no HTTP client, for the same cause, or both have servers that answer alike. -/
theorem fetchSchemaBy_alike {carrier carrier' : Except String Server}
    (same : Agree AnswerAlike carrier carrier') {c c' : Config}
    (apart : Config.TokensApart c c') : Alike (Fetched c c')
      (fetchSchemaBy carrier (.ofConfig c) c) (fetchSchemaBy carrier' (.ofConfig c') c') := by
  rw [fetchSchemaBy, fetchSchemaBy, Client.ofConfig_dataset, Client.ofConfig_dataset,
    apart.dataset_eq, apart.graphqlApi_eq]
  have hrequest : Alike (Fetched c c')
      (requestSchema carrier (.ofConfig c) (schemaPath c.dataset c.graphqlApi))
      (requestSchema carrier' (.ofConfig c') (schemaPath c.dataset c.graphqlApi)) := by
    cases same with
    | error cause => exact .pure ⟨rfl, .nothing⟩
    | ok same => exact askSchema_alike same apart
  refine hrequest.bind fun fetched fetched' h => ?_
  rw [h.result]
  exact .after _ fun _ => .pure ⟨rfl, h.requests⟩

end SchemaCatalog.Remote
