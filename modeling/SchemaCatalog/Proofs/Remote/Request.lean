import SchemaCatalog.Remote.Fetch

/-!
# SchemaCatalog.Proofs.Remote.Request

The requests that a fetch sends.

The client of a configuration has the user of the URL, the token and the kind of contents to put
in a header. All but the token can always stand there, so the URL and the token decide whether a
request can be made, and each of them for itself (`request_ofConfig`). Whoever answers, the first
request is that one, and the others come from redirections (`requests_send`).
-/

namespace SchemaCatalog

open Http (isFieldName isFieldValue)

/-! ## Header fields -/

namespace Text.Base64

theorem all_encode {p : Char → Bool} (hchar : ∀ n, p (char n) = true) (hfill : p '=' = true)
    (bs : List UInt8) : (encode bs).all p = true := by
  induction bs using encode.induct with
  | case1 => rfl
  | case2 a => simp [encode, hchar, hfill]
  | case3 a b => simp [encode, hchar, hfill]
  | case4 a b c rest ih => simp [encode, hchar, ih]

end Text.Base64

theorem Http.isFieldValue_append (a b : String) :
    isFieldValue (a ++ b) = (isFieldValue a && isFieldValue b) := by
  rw [isFieldValue, String.toList_append, List.all_append]
  rfl

theorem Http.isFieldValue_base64 (bs : List UInt8) :
    isFieldValue (String.ofList (Text.Base64.encode bs)) = true := by
  rw [isFieldValue, String.toList_ofList]
  refine Text.Base64.all_encode (fun n => ?_) (by decide) bs
  by_cases h : n < 64
  · have hall : ∀ n < 64, (Text.Base64.char n = '\t' ||
        (0x20 ≤ (Text.Base64.char n).toNat && (Text.Base64.char n).toNat ≠ 0x7F)) = true := by
      decide
    exact hall n h
  · have hslash : Text.Base64.char n = '/' := by
      rw [Text.Base64.char, if_neg (by omega), if_neg (by omega), if_neg (by omega),
        if_neg (by omega)]
    rw [hslash]
    decide

namespace Remote

open Http (Server Request Exchanged Fault)

namespace Client

/-- The field for a token. -/
def bearerField (token : Option String) : List (String × String) :=
  (token.map fun token => ("authorization", "Bearer " ++ token)).toList

/-- The header of a request at a URL: the user there, the token, and the kind of contents. -/
def header (token : Option String) (full : Url) : List (String × String) :=
  userField full ++ bearerField token ++ [("accept", mediaType)]

@[simp] theorem place_scheme (full : Url) : (place full).scheme = full.scheme := by
  rw [place]
  split <;> rfl

@[simp] theorem place_host (full : Url) : (place full).host = full.host := by
  rw [place]
  split <;> rfl

@[simp] theorem place_port (full : Url) : (place full).port = full.port := by
  rw [place]
  split <;> rfl

@[simp] theorem place_path (full : Url) : (place full).path = full.path := by
  rw [place]
  split <;> rfl

@[simp] theorem place_query (full : Url) : (place full).query = full.query := by
  rw [place]
  split <;> rfl

theorem isSendable_place (full : Url) : Http.isSendable (place full) = Http.isSendable full := by
  rw [Http.isSendable, Http.isSendable, place_scheme, place_host]

theorem of_mem_userField {url : Url} {field : String × String} (h : field ∈ userField url) :
    field.1 = "authorization" ∧ isFieldValue field.2 = true := by
  rw [userField] at h
  cases huser : user? url with
  | none =>
    rw [huser] at h
    cases h
  | some named =>
    rw [huser, List.mem_singleton] at h
    subst h
    have hbasic : isFieldValue "Basic " = true := by decide
    refine ⟨rfl, ?_⟩
    rw [Http.isFieldValue_append, hbasic, Http.isFieldValue_base64]
    rfl

section OfConfig

variable (c : Config)

theorem ofConfig_token : (ofConfig c).token = c.token := by
  rw [ofConfig]
  cases c.token <;> rfl

theorem ofConfig_dataset : (ofConfig c).dataset = c.dataset := by
  rw [ofConfig]
  cases c.token <;> rfl

theorem ofConfig_headers : (ofConfig c).headers = .empty := by
  rw [ofConfig]
  cases c.token <;> rfl

theorem ofConfig_baseUrl :
    (ofConfig c).baseUrl = Config.withoutTrailingSlashes c.apiUrl := by
  rw [ofConfig]
  cases c.token <;> rfl

theorem fields_ofConfig (full : Url) : (ofConfig c).fields full mediaType =
    header c.token full := by
  rw [fields, ofConfig_token, ofConfig_headers, header, bearerField]
  exact congrArg (· ++ [("accept", mediaType)]) (List.append_nil _)

/-- Whether a token cannot stand in a header. -/
def refusesToken (token : Option String) : Bool := token.any fun token => !isFieldValue token

theorem all_header (token : Option String) (full : Url) :
    (header token full).all (fun field => isFieldName field.1 && isFieldValue field.2) =
      !refusesToken token := by
  have hname : isFieldName "authorization" = true := by decide
  have hbearer : isFieldValue "Bearer " = true := by decide
  have haccept : (isFieldName "accept" && isFieldValue mediaType) = true := by decide
  have huser : (userField full).all (fun field => isFieldName field.1 && isFieldValue field.2) =
      true := by
    refine List.all_eq_true.2 fun field hfield => ?_
    obtain ⟨hauthorization, hvalue⟩ := of_mem_userField hfield
    rw [hauthorization, hname, hvalue]
    rfl
  rw [header, List.all_append, List.all_append, huser, List.all_cons, haccept]
  cases token with
  | none => rfl
  | some token =>
    simp [bearerField, refusesToken, hname, hbearer, Http.isFieldValue_append]

theorem map_fieldKey_header (token : Option String) (full : Url) :
    ((header token full).map fun field => (Http.fieldKey field.1, field.2)) =
      header token full := by
  have hauthorization : Http.fieldKey "authorization" = "authorization" := by decide
  have haccept : Http.fieldKey "accept" = "accept" := by decide
  have huser : (userField full).map (fun field => (Http.fieldKey field.1, field.2)) =
      userField full := by
    refine List.map_congr_left (g := id) (fun field hfield => ?_) |>.trans (List.map_id _)
    obtain ⟨name, value⟩ := field
    obtain ⟨rfl, _⟩ := of_mem_userField hfield
    rw [hauthorization]
    rfl
  rw [header, List.map_append, List.map_append, huser, List.map_cons, haccept]
  cases token with
  | none => rfl
  | some token => simp [bearerField, hauthorization]

/-- The request for a configuration: the URL decides where it goes, and the token whether it can
be made. -/
theorem request_ofConfig (path : String) : (ofConfig c).request path mediaType =
    match Url.parse? (Config.withoutTrailingSlashes c.apiUrl ++ path) with
    | none => .error (.builder none)
    | some full =>
      if full.host.isNone then .error (.builder (some full))
      else if refusesToken c.token then .error (.builder none)
      else if !Http.isSendable full then .error (.builder (some (place full)))
      else .ok ⟨place full, header c.token full⟩ := by
  rw [request, ofConfig_baseUrl]
  cases Url.parse? (Config.withoutTrailingSlashes c.apiUrl ++ path) with
  | none => rfl
  | some full =>
    simp only [fields_ofConfig, all_header, map_fieldKey_header, isSendable_place, Bool.not_not]

end OfConfig

end Client

/-! ## Requests that follow redirections -/

/-- The request comes first, and those that follow redirections come after it. -/
theorem requests_send (server : Server) (hops : Nat) (earlier : List Request)
    (request : Request) :
    ∃ later, (Http.send server hops earlier request).requests = earlier ++ request :: later := by
  fun_induction Http.send server hops earlier request with
  | case1 | case2 | case3 | case4 | case6 => exact ⟨[], rfl⟩
  | case5 earlier request sent response _ _ next _ hops _ ih =>
    obtain ⟨later, hlater⟩ := ih
    refine ⟨request.redirect next :: later, ?_⟩
    rw [hlater]
    simp [sent]

theorem requests_fetchSchema (server : Server) (client : Client) (config : Config) :
    (fetchSchema server client config).value.requests =
      match client.request (schemaPath client.dataset config.graphqlApi) mediaType with
      | .error _ => []
      | .ok request => (Http.send server Http.maxHops [] request).requests := by
  rw [fetchSchema, fetchSchemaBy, requestSchema, askSchema]
  simp only [Logged.value_bind, Logged.value_pure]
  cases client.request (schemaPath client.dataset config.graphqlApi) mediaType with
  | error fault => rfl
  | ok request =>
    simp only
    cases (Http.send server Http.maxHops [] request).result <;> rfl

end Remote

end SchemaCatalog
