import Mathlib.Data.List.Nodup
import SchemaCatalog.Proofs.OrderedMap
import SchemaCatalog.Proofs.Remote.Request
import SchemaCatalog.Proofs.TwoRuns

/-!
# SchemaCatalog.Proofs.Remote.Settings

What a request has of the settings of its client.

A client keeps of every slot what was set last (`HasSet`, which one call preserves), and it has one
slot for every spelling of the name of a header field. So the last setting wins under a spelling,
while a request has its fields under names in small letters: several spellings are one name there,
and every one of them has its value (`HasSet.valuesOf_request`). The user of the URL, the token and
the kind of contents come besides, in the same field as what is set under their names.

What counts is thus the last setting of every slot, and clients that have these in common send the
same request, up to the order of its fields (`HasSet.request_agree`).
-/

namespace SchemaCatalog

/-! ## Names in small letters -/

namespace Text.LetterCase

theorem asciiLower_asciiLower (c : Char) : asciiLower (asciiLower c) = asciiLower c := by
  by_cases h : 'A' ≤ c ∧ c ≤ 'Z'
  · have hcode : c.toNat < 128 :=
      Nat.lt_of_le_of_lt (show c.toNat ≤ 'Z'.toNat from h.2) (by decide)
    exact forall_ascii (P := fun c => asciiLower (asciiLower c) = asciiLower c) (by decide) hcode
  · have hsame : asciiLower c = c := if_neg h
    rw [hsame, hsame]

end Text.LetterCase

namespace Http

theorem fieldKey_fieldKey (name : String) : fieldKey (fieldKey name) = fieldKey name := by
  simp [fieldKey, Function.comp_def, Text.LetterCase.asciiLower_asciiLower]

theorem valuesOf_append (fields fields' : List (String × String)) (key : String) :
    valuesOf (fields ++ fields') key = valuesOf fields key ++ valuesOf fields' key :=
  List.filterMap_append

theorem valuesOf_keyed (fields : List (String × String)) (key : String) :
    valuesOf (fields.map fun field => (fieldKey field.1, field.2)) key = valuesOf fields key := by
  simp [valuesOf, List.filterMap_map, fieldKey_fieldKey]

/-- Fields under one name in small letters. -/
theorem valuesOf_named (name : String) (hname : fieldKey name = name)
    {fields : List (String × String)} (h : ∀ field ∈ fields, field.1 = name) (key : String) :
    valuesOf fields key = if key = name then fields.map (·.2) else [] := by
  have hkey : ∀ field ∈ fields, fieldKey field.1 = name := fun field hfield => by
    rw [h field hfield, hname]
  by_cases heq : key = name
  · rw [if_pos heq, valuesOf, ← List.filterMap_eq_map]
    exact List.filterMap_congr fun field hfield => if_pos ((hkey field hfield).trans heq.symm)
  · rw [if_neg heq, valuesOf, List.filterMap_eq_nil_iff]
    exact fun field hfield => if_neg fun hsame => heq (hsame.symm.trans (hkey field hfield))

/-- Fields from a map: every name under the key has its value. -/
theorem valuesOf_entries (m : OrderedMap String) (key : String) :
    valuesOf m.entries key = (m.keys.filter fun name => fieldKey name = key).filterMap m.get? := by
  have h : ∀ names : List String, valuesOf (OrderedMap.select m.get? names) key =
      (names.filter fun name => fieldKey name = key).filterMap m.get? := by
    intro names
    rw [valuesOf, OrderedMap.select, List.filterMap_filterMap, List.filterMap_filter]
    refine List.filterMap_congr fun name _ => ?_
    cases m.get? name <;> simp
  rw [m.entries_eq, h]

end Http

/-- Maps with the same look-ups have the same entries, if in another order. -/
theorem OrderedMap.perm_entries {α : Type} {m m' : OrderedMap α}
    (h : ∀ key, m.get? key = m'.get? key) : m.entries.Perm m'.entries := by
  refine (List.perm_ext_iff_of_nodup (List.Nodup.of_map _ m.distinct)
    (List.Nodup.of_map _ m'.distinct)).2 ?_
  rintro ⟨key, value⟩
  rw [mem_entries_iff, mem_entries_iff, h]

namespace Remote

open Http (Server Request fieldKey valuesOf)

/-! ## Settings -/

/-- What there is to set of a client. Header fields are told apart by their names as these are
spelled. -/
inductive Slot where
  | token
  | field (name : String)
  | timeout
  | connectTimeout
deriving DecidableEq, Repr

/-- A call that sets something of a client. -/
inductive Setting where
  | token (token : String)
  | header (name value : String)
  | timeout (seconds : Nat)
  | connectTimeout (seconds : Nat)
deriving DecidableEq, Repr

namespace Setting

def slot : Setting → Slot
  | token _ => .token
  | header name _ => .field name
  | timeout _ => .timeout
  | connectTimeout _ => .connectTimeout

def text? : Setting → Option String
  | token text | header _ text => some text
  | timeout _ | connectTimeout _ => none

def seconds? : Setting → Option Nat
  | timeout seconds | connectTimeout seconds => some seconds
  | token _ | header _ _ => none

end Setting

def Client.set (c : Client) : Setting → Client
  | .token token => c.withToken token
  | .header name value => c.withHeader name value
  | .timeout seconds => c.withTimeout seconds
  | .connectTimeout seconds => c.withConnectTimeout seconds

/-- A new client after the calls, one after the other. -/
def Client.ofSettings (baseUrl dataset : String) (settings : List Setting) : Client :=
  settings.foldl set (new baseUrl dataset)

/-- The last call for a slot. -/
def last (slot : Slot) (settings : List Setting) : Option Setting :=
  settings.reverse.find? (·.slot = slot)

def lastToken (settings : List Setting) : Option String := (last .token settings).bind (·.text?)

/-- The last value under a name that is spelled like this. -/
def lastValue (settings : List Setting) (name : String) : Option String :=
  (last (.field name) settings).bind (·.text?)

def lastSeconds (slot : Slot) (settings : List Setting) : Option Nat :=
  (last slot settings).bind (·.seconds?)

/-- The same call comes last for every slot. -/
def SameLast (settings settings' : List Setting) : Prop :=
  ∀ slot, last slot settings = last slot settings'

section Last

variable (settings : List Setting) (x : Setting)

theorem last_append_singleton (slot : Slot) :
    last slot (settings ++ [x]) = if x.slot = slot then some x else last slot settings := by
  rw [last, List.reverse_append, List.reverse_singleton, List.singleton_append, List.find?_cons]
  by_cases h : x.slot = slot <;> simp [h, last]

theorem lastToken_append_singleton : lastToken (settings ++ [x]) =
    if x.slot = .token then x.text? else lastToken settings := by
  rw [lastToken, last_append_singleton]
  split <;> rfl

theorem lastValue_append_singleton (name : String) : lastValue (settings ++ [x]) name =
    if x.slot = .field name then x.text? else lastValue settings name := by
  rw [lastValue, last_append_singleton]
  split <;> rfl

theorem lastSeconds_append_singleton (slot : Slot) : lastSeconds slot (settings ++ [x]) =
    if x.slot = slot then x.seconds? else lastSeconds slot settings := by
  rw [lastSeconds, last_append_singleton]
  split <;> rfl

end Last

/-- Calls for different slots can change places. -/
theorem sameLast_swap {x y : Setting} (h : x.slot ≠ y.slot) (before behind : List Setting) :
    SameLast (before ++ x :: y :: behind) (before ++ y :: x :: behind) := by
  intro slot
  have hnot : ¬ (x.slot = slot ∧ y.slot = slot) := fun ⟨hx, hy⟩ => h (hx.trans hy.symm)
  simp only [last, List.reverse_append, List.reverse_cons, List.append_assoc, List.find?_append,
    List.find?_singleton]
  by_cases hx : x.slot = slot
  · have hy : ¬ y.slot = slot := fun hy => hnot ⟨hx, hy⟩
    simp [hx, hy]
  · simp [hx]

/-! ## Clients -/

/-- Of every slot a client has what was set last. -/
structure HasSet (baseUrl dataset : String) (settings : List Setting) (c : Client) : Prop where
  baseUrl : c.baseUrl = Config.withoutTrailingSlashes baseUrl
  dataset : c.dataset = dataset
  token : c.token = lastToken settings
  field : ∀ name, c.headers.get? name = lastValue settings name
  timeout : c.timeout = (lastSeconds .timeout settings).getD 30
  connectTimeout : c.connectTimeout = (lastSeconds .connectTimeout settings).getD 10

namespace HasSet

variable {baseUrl dataset : String} {settings : List Setting} {c : Client}

theorem new (baseUrl dataset : String) : HasSet baseUrl dataset [] (.new baseUrl dataset) :=
  ⟨rfl, rfl, rfl, fun _ => rfl, rfl, rfl⟩

/-- One call more. -/
theorem set (h : HasSet baseUrl dataset settings c) (x : Setting) :
    HasSet baseUrl dataset (settings ++ [x]) (c.set x) where
  baseUrl := by cases x <;> exact h.baseUrl
  dataset := by cases x <;> exact h.dataset
  token := by
    rw [lastToken_append_singleton, ← h.token]
    cases x <;> rfl
  field := fun name => by
    rw [lastValue_append_singleton, ← h.field]
    cases x with
    | header spelled value =>
      simp only [Setting.slot, Setting.text?, Slot.field.injEq]
      by_cases hname : spelled = name
      · subst hname
        rw [if_pos rfl]
        exact OrderedMap.get?_insert_self _ _ _
      · rw [if_neg hname]
        exact OrderedMap.get?_insert_of_ne _ _ (Ne.symm hname)
    | token _ | timeout _ | connectTimeout _ => rfl
  timeout := by
    rw [lastSeconds_append_singleton]
    cases x with
    | timeout seconds => rfl
    | token _ | header _ _ | connectTimeout _ => exact h.timeout
  connectTimeout := by
    rw [lastSeconds_append_singleton]
    cases x with
    | connectTimeout seconds => rfl
    | token _ | header _ _ | timeout _ => exact h.connectTimeout

/-- All calls. -/
theorem ofSettings (baseUrl dataset : String) (settings : List Setting) :
    HasSet baseUrl dataset settings (.ofSettings baseUrl dataset settings) := by
  induction settings using List.reverseRecOn with
  | nil => exact .new baseUrl dataset
  | append_singleton settings x ih =>
    rw [Client.ofSettings, List.foldl_append]
    exact ih.set x

end HasSet

/-! ## Requests -/

theorem Client.of_request_eq_ok {c : Client} {path accept : String} {r : Request}
    (h : c.request path accept = .ok r) : ∃ full, Url.parse? (c.baseUrl ++ path) = some full ∧
      r = ⟨Client.place full,
        (c.fields full accept).map fun field => (fieldKey field.1, field.2)⟩ := by
  rw [request] at h
  cases hfull : Url.parse? (c.baseUrl ++ path) with
  | none => rw [hfull] at h; cases h
  | some full =>
    rw [hfull] at h
    refine ⟨full, rfl, ?_⟩
    dsimp only at h
    split at h
    · cases h
    · split at h
      · cases h
      · split at h
        · cases h
        · exact (Except.ok.inj h).symm

/-- The spellings under which a name in small letters has been set, each of them once. -/
structure Spellings (settings : List Setting) (key : String) (names : List String) : Prop where
  distinct : names.Nodup
  mem_iff : ∀ name, name ∈ names ↔ fieldKey name = key ∧ (lastValue settings name).isSome

theorem Spellings.eq_singleton {settings : List Setting} {name : String} {names : List String}
    (h : Spellings settings (fieldKey name) names)
    (honly : ∀ other, fieldKey other = fieldKey name → (lastValue settings other).isSome →
      other = name) :
    names.filterMap (lastValue settings) = (lastValue settings name).toList := by
  cases hvalue : lastValue settings name with
  | none =>
    rw [Option.toList_none, List.filterMap_eq_nil_iff]
    intro other hother
    obtain ⟨hkey, hsome⟩ := (h.mem_iff other).1 hother
    rw [honly other hkey hsome, hvalue]
  | some value =>
    have hone : names.Perm [name] := by
      refine (List.perm_ext_iff_of_nodup h.distinct (List.nodup_singleton name)).2 fun other => ?_
      rw [h.mem_iff, List.mem_singleton]
      constructor
      · exact fun ⟨hkey, hsome⟩ => honly other hkey hsome
      · rintro rfl
        exact ⟨rfl, by rw [hvalue]; rfl⟩
    rw [List.perm_singleton.1 hone]
    simp [hvalue]

/-- The same request, if with its fields in another order. -/
structure SameButOrder (r r' : Request) : Prop where
  url : r.url = r'.url
  headers : r.headers.Perm r'.headers

/-- The values of a request under a name in small letters. Those of the spellings stand between the
ones that come with every request for a schema. -/
def values (full : Url) (settings : List Setting) (key : String) (names : List String) :
    List String :=
  (if key = "authorization" then
    (Client.userField full ++ Client.bearerField (lastToken settings)).map (·.2) else []) ++
    names.filterMap (lastValue settings) ++ if key = "accept" then [mediaType] else []

namespace HasSet

variable {baseUrl dataset path : String} {settings settings' : List Setting} {c c' : Client}

theorem spellings (h : HasSet baseUrl dataset settings c) (key : String) :
    Spellings settings key (c.headers.keys.filter fun name => fieldKey name = key) := by
  refine ⟨List.Nodup.filter _ c.headers.distinct, fun name => ?_⟩
  rw [List.mem_filter, decide_eq_true_iff, ← h.field, ← OrderedMap.contains_iff,
    OrderedMap.contains, and_comm]

theorem valuesOf_request (h : HasSet baseUrl dataset settings c) {r : Request}
    (hr : c.request path mediaType = .ok r) :
    ∃ full, Url.parse? (Config.withoutTrailingSlashes baseUrl ++ path) = some full ∧
      r.url = Client.place full ∧
      ∀ key, ∃ names, Spellings settings key names ∧
        valuesOf r.headers key = values full settings key names := by
  obtain ⟨full, hfull, rfl⟩ := Client.of_request_eq_ok hr
  rw [h.baseUrl] at hfull
  refine ⟨full, hfull, rfl, fun key => ⟨_, h.spellings key, ?_⟩⟩
  have hown : ∀ field ∈ Client.userField full ++ Client.bearerField (lastToken settings),
      field.1 = "authorization" := by
    intro field hfield
    rcases List.mem_append.1 hfield with huser | hbearer
    · exact (Client.of_mem_userField huser).1
    · rw [Client.bearerField, Option.mem_toList, Option.map_eq_some_iff] at hbearer
      obtain ⟨token, _, rfl⟩ := hbearer
      rfl
  have hfields : c.fields full mediaType = Client.userField full ++
      Client.bearerField (lastToken settings) ++ c.headers.entries ++ [("accept", mediaType)] := by
    rw [Client.fields, h.token, Client.bearerField]
  rw [Http.valuesOf_keyed, hfields, Http.valuesOf_append, Http.valuesOf_append,
    Http.valuesOf_named "authorization" (by decide) hown, Http.valuesOf_entries, funext h.field,
    Http.valuesOf_named "accept" (by decide) (by simp), values]
  rfl

theorem headers_perm (h : HasSet baseUrl dataset settings c)
    (h' : HasSet baseUrl dataset settings' c') (hsame : SameLast settings settings') :
    c.headers.entries.Perm c'.headers.entries := by
  refine OrderedMap.perm_entries fun name => ?_
  rw [h.field, h'.field, lastValue, lastValue, hsame]

/-- What has the same last settings makes the same request. -/
theorem request_agree (h : HasSet baseUrl dataset settings c)
    (h' : HasSet baseUrl dataset settings' c') (hsame : SameLast settings settings')
    (path : String) :
    Agree SameButOrder (c.request path mediaType) (c'.request path mediaType) := by
  have htoken : c'.token = c.token := by rw [h.token, h'.token, lastToken, lastToken, hsame]
  have hfields : ∀ full, (c.fields full mediaType).Perm (c'.fields full mediaType) := by
    intro full
    rw [Client.fields, Client.fields, htoken]
    exact ((h.headers_perm h' hsame).append_left _).append_right _
  rw [Client.request, Client.request, h'.baseUrl, h.baseUrl]
  cases Url.parse? (Config.withoutTrailingSlashes baseUrl ++ path) with
  | none => exact .error _
  | some full =>
    dsimp only
    rw [(hfields full).all_eq]
    split
    · exact .error _
    · split
      · exact .error _
      · split
        · exact .error _
        · exact .ok ⟨rfl, (hfields full).map _⟩

end HasSet

/-! ## Fetches -/

/-- The request that a fetch sends first, if it sends any. -/
def firstRequest? (server : Server) (client : Client) (config : Config) : Option Request :=
  (fetchSchema server client config).value.requests.head?

theorem firstRequest?_eq (server : Server) (client : Client) (config : Config) :
    firstRequest? server client config =
      (client.request (schemaPath client.dataset config.graphqlApi) mediaType).toOption := by
  rw [firstRequest?, requests_fetchSchema]
  cases client.request (schemaPath client.dataset config.graphqlApi) mediaType with
  | error fault => rfl
  | ok request =>
    obtain ⟨later, hlater⟩ := requests_send server Http.maxHops [] request
    dsimp only
    rw [hlater]
    rfl

section Fetch

variable {baseUrl dataset : String} {settings settings' : List Setting} {server : Server}
  {config : Config}

theorem values_firstRequest? {r : Request}
    (h : firstRequest? server (.ofSettings baseUrl dataset settings) config = some r) :
    ∃ full, Url.parse? (Config.withoutTrailingSlashes baseUrl ++
        schemaPath dataset config.graphqlApi) = some full ∧
      r.url = Client.place full ∧
      ∀ key, ∃ names, Spellings settings key names ∧
        valuesOf r.headers key = values full settings key names := by
  have hset := HasSet.ofSettings baseUrl dataset settings
  rw [firstRequest?_eq, hset.dataset] at h
  cases hrequest : (Client.ofSettings baseUrl dataset settings).request
      (schemaPath dataset config.graphqlApi) mediaType with
  | error fault =>
    rw [hrequest] at h
    cases h
  | ok request =>
    rw [hrequest] at h
    cases h
    exact hset.valuesOf_request hrequest

/-- One spelling of a name that is no name of a request for a schema. -/
theorem value_firstRequest? {r : Request}
    (h : firstRequest? server (.ofSettings baseUrl dataset settings) config = some r)
    {name : String} (hauthorization : fieldKey name ≠ "authorization")
    (haccept : fieldKey name ≠ "accept")
    (honly : ∀ other, fieldKey other = fieldKey name → (lastValue settings other).isSome →
      other = name) :
    valuesOf r.headers (fieldKey name) = (lastValue settings name).toList := by
  obtain ⟨full, _, _, hvalues⟩ := values_firstRequest? h
  obtain ⟨names, hnames, hname⟩ := hvalues (fieldKey name)
  rw [hname, values, if_neg hauthorization, if_neg haccept, hnames.eq_singleton honly,
    List.nil_append, List.append_nil]

theorem firstRequest?_rel (server : Server) (config : Config)
    (hsame : SameLast settings settings') :
    Option.Rel SameButOrder (firstRequest? server (.ofSettings baseUrl dataset settings) config)
      (firstRequest? server (.ofSettings baseUrl dataset settings') config) := by
  have hset := HasSet.ofSettings baseUrl dataset settings
  have hset' := HasSet.ofSettings baseUrl dataset settings'
  rw [firstRequest?_eq, firstRequest?_eq, hset.dataset, hset'.dataset]
  exact (hset.request_agree hset' hsame (schemaPath dataset config.graphqlApi)).toOption

end Fetch

/-- For every sequence of calls, whatever is fetched from whatever server: the client has its last
token and limits, and the request has under every name in small letters the user of the URL and the
last token if the name is theirs, then the last value of every spelling that has been set, in some
order, and then the kind of contents if the name is that. So a name that is not one of these and
has been set under one spelling has its last value and no other one. And what is the same last for
every slot is the same request or none, up to the order of its fields, for instance when calls for
different slots change places. -/
theorem fetch_has_last_settings (baseUrl dataset : String) (settings : List Setting)
    (server : Server) (config : Config) :
    HasSet baseUrl dataset settings (.ofSettings baseUrl dataset settings) ∧
    (∀ r, firstRequest? server (.ofSettings baseUrl dataset settings) config = some r →
      (∃ full, Url.parse? (Config.withoutTrailingSlashes baseUrl ++
          schemaPath dataset config.graphqlApi) = some full ∧
        r.url = Client.place full ∧
        ∀ key, ∃ names, Spellings settings key names ∧
          valuesOf r.headers key = values full settings key names) ∧
      ∀ name, fieldKey name ≠ "authorization" → fieldKey name ≠ "accept" →
        (∀ other, fieldKey other = fieldKey name → (lastValue settings other).isSome →
          other = name) →
        valuesOf r.headers (fieldKey name) = (lastValue settings name).toList) ∧
    (∀ settings', SameLast settings settings' →
      Option.Rel SameButOrder
        (firstRequest? server (.ofSettings baseUrl dataset settings) config)
        (firstRequest? server (.ofSettings baseUrl dataset settings') config)) ∧
    ∀ before x y behind, x.slot ≠ y.slot → settings = before ++ x :: y :: behind →
      SameLast settings (before ++ y :: x :: behind) := by
  refine ⟨.ofSettings baseUrl dataset settings, fun r hr => ?_, fun settings' hsame => ?_, ?_⟩
  · exact ⟨values_firstRequest? hr, fun name => value_firstRequest? hr⟩
  · exact firstRequest?_rel server config hsame
  · rintro before x y behind hslots rfl
    exact sameLast_swap hslots before behind

/-- A user and a kind of contents that are set by name come besides the usual ones, and two
spellings of a name have a value each. -/
theorem fetch_has_two_values :
    ((firstRequest? (fun _ _ => none) (.ofSettings "http://h" "production"
        [.token "t", .header "Authorization" "Basic x", .header "Accept" "text/plain",
          .header "X-Trace" "1", .header "x-trace" "2"])
      ⟨"p", "production", "default", none, none, none, none⟩).map fun r =>
        (valuesOf r.headers "authorization", valuesOf r.headers "accept",
          (valuesOf r.headers "x-trace").length)) =
      some (["Bearer t", "Basic x"], ["text/plain", "application/graphql"], 2) := by
  decide +kernel

end Remote

end SchemaCatalog
