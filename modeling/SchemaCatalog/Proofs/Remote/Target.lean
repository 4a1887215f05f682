import SchemaCatalog.Proofs.Config.Loading
import SchemaCatalog.Proofs.Remote.Request
import SchemaCatalog.Proofs.Url.Base

/-!
# SchemaCatalog.Proofs.Remote.Target

Which resource a fetch asks for.

The dataset of a valid configuration is always a plain segment, so a request asks for the base
path, two fixed segments, the dataset, and whatever the name of the API makes of the end. When that
name is a segment that stands for itself, the request asks for that segment and for nothing else,
and different names ask for different things; of any other name this cannot be said
(`fetchSchema_asks_for_configured`), because nothing is encoded before it goes into the URL.
-/

namespace SchemaCatalog.Remote

open Http (Server Request)
open Text.Utf8 (bytes)

/-! ## The segments of a schema -/

theorem isPlain_of_isDatasetChar {cs : List Char} (h : ∀ c ∈ cs, Config.isDatasetChar c = true) :
    Url.IsPlain cs := by
  have hother : ∀ c : Char, Config.isDatasetChar c = false → c ∉ cs := fun c hc hmem => by
    rw [h c hmem] at hc
    cases hc
  refine ⟨fun c hc => ?_, Url.isDots_of_not_mem (hother _ (by decide)) (hother _ (by decide))⟩
  rw [Bool.eq_false_iff]
  intro hbreak
  have hall : ['/', '\\', '?', '#', '\t', '\n', '\r'].all (!Config.isDatasetChar ·) = true := by
    decide
  have hno := List.all_eq_true.1 hall c (List.contains_iff_mem.1 hbreak)
  exact hother c (by simpa using hno) hc

theorem encodedSegment_of_isDatasetChar {text : String}
    (h : ∀ c ∈ text.toList, Config.isDatasetChar c = true) :
    Url.encodedSegment text.toList = text := by
  have hkept : ∀ c ∈ text.toList, Url.isKept c = true := by
    intro c hc
    have hcode : c.toNat < 128 := by
      have hdataset := h c hc
      simp only [Config.isDatasetChar, Bool.or_eq_true, Bool.and_eq_true,
        decide_eq_true_eq] at hdataset
      rcases hdataset with ((⟨_, hhigh⟩ | ⟨_, hhigh⟩) | rfl) | rfl
      · exact Nat.lt_of_le_of_lt (show c.toNat ≤ 'z'.toNat from hhigh) (by decide)
      · exact Nat.lt_of_le_of_lt (show c.toNat ≤ '9'.toNat from hhigh) (by decide)
      · decide
      · decide
    exact Text.LetterCase.forall_ascii
      (P := fun c => Config.isDatasetChar c = true → Url.isKept c = true) (by decide) hcode (h c hc)
  rw [Url.encodedSegment, Url.percentEncode_of_kept hkept, String.ofList_toList]

theorem map_encodedSegment {names : List String}
    (h : ∀ name ∈ names, ∀ c ∈ name.toList, Config.isDatasetChar c = true) :
    (names.map String.toList).map Url.encodedSegment = names := by
  rw [List.map_map]
  refine (List.map_congr_left fun name hname => ?_).trans (List.map_id' names)
  exact encodedSegment_of_isDatasetChar (h name hname)

/-- What the URL of a schema is, and where the name of the API goes. -/
structure IsSchemaUrl (own : List String) (c : Config) (base full : Url) : Prop where
  parsed : Url.parse? (Config.withoutTrailingSlashes c.apiUrl ++
    schemaPath c.dataset c.graphqlApi) = some full
  scheme : full.scheme = base.scheme
  host : full.host = base.host
  port : full.port = base.port
  path : full.path = .segments (Url.resolveDots
    (own.rdropWhile (· = "") ++ ["apis", "graphql", c.dataset])
    (Url.segmentsOf "http" (Url.splitTail (Url.tidied c.graphqlApi.toList)).1))
  query : full.query =
    (Url.splitTail (Url.tidied c.graphqlApi.toList)).2.1.map (Url.encodedQuery "http")

theorem exists_isSchemaUrl {c : Config} {host : String} {base : Url} (valid : c.IsValid)
    (configured : c.apiHost = some host) (hbase : Url.IsBase host base) :
    ∃ own full, base.path = .segments own ∧ IsSchemaUrl own c base full := by
  have hurl : (Config.withoutTrailingSlashes c.apiUrl).toList =
      (Config.withoutTrailingSlashes host).toList := by
    simp only [Config.apiUrl, configured, Url.toList_withoutTrailingSlashes]
    exact List.rdropWhile_idempotent _ _
  have hnames : ∀ name ∈ ["apis", "graphql", c.dataset],
      ∀ ch ∈ name.toList, Config.isDatasetChar ch = true := by
    refine List.forall_mem_cons.2 ⟨List.all_eq_true.1 (by decide), ?_⟩
    refine List.forall_mem_cons.2 ⟨List.all_eq_true.1 (by decide), ?_⟩
    exact List.forall_mem_singleton.2 valid.dataset
  have hmore : ∀ s ∈ ["apis", "graphql", c.dataset].map String.toList, Url.IsPlain s := by
    intro s hs
    obtain ⟨name, hname, rfl⟩ := List.mem_map.1 hs
    exact isPlain_of_isDatasetChar (hnames name hname)
  have hfull : (Config.withoutTrailingSlashes c.apiUrl ++
      schemaPath c.dataset c.graphqlApi).toList = (Config.withoutTrailingSlashes host).toList ++
        ((["apis", "graphql", c.dataset].map String.toList).flatMap ('/' :: ·) ++
          '/' :: c.graphqlApi.toList) := by
    have hpath : schemaPath c.dataset c.graphqlApi =
        "/apis/graphql/" ++ c.dataset ++ "/" ++ c.graphqlApi := rfl
    rw [String.toList_append, hurl, hpath]
    simp
  obtain ⟨own, hown, hparse⟩ := hbase.parse?_append hmore hfull
  rw [map_encodedSegment hnames] at hparse
  exact ⟨own, _, hown, hparse, rfl, rfl, rfl, rfl, rfl⟩

/-! ## The first request -/

/-- The first request of a fetch, if there is one, goes to the URL of the schema. -/
theorem head?_requests_fetchSchema (server : Server) {c : Config} {full : Url}
    (hfull : Url.parse? (Config.withoutTrailingSlashes c.apiUrl ++
      schemaPath c.dataset c.graphqlApi) = some full) (hhost : full.host.isSome = true) :
    (fetchSchema server (Client.ofConfig c) c).value.requests.head? =
      if Client.refusesToken c.token || !Http.isSendable full then none
      else some ⟨Client.place full, Client.header c.token full⟩ := by
  rw [requests_fetchSchema, Client.ofConfig_dataset, Client.request_ofConfig, hfull]
  have hnone : full.host.isNone = false := by
    rw [← Option.not_isSome, hhost]
    rfl
  cases htoken : Client.refusesToken c.token with
  | true => simp [hnone]
  | false =>
    cases hsendable : Http.isSendable full with
    | false =>
      simp only [hnone, hsendable, Bool.false_eq_true, if_false]
      rfl
    | true =>
      simp only [hnone, hsendable, Bool.not_true, Bool.false_eq_true, if_false]
      obtain ⟨later, hlater⟩ := requests_send server Http.maxHops []
        ⟨Client.place full, Client.header c.token full⟩
      rw [hlater]
      rfl

/-- A URL asks for the schema of a configuration below a base path with these segments. -/
structure AsksFor (own : List String) (c : Config) (url : Url) : Prop where
  path : ∃ last, url.path =
      .segments (own.rdropWhile (· = "") ++ ["apis", "graphql", c.dataset, last]) ∧
    Url.percentDecode last.toList = bytes c.graphqlApi.toList
  query : url.query = none

theorem toList_render_segments (list : List String) :
    (Url.Route.segments list).render.toList =
      list.flatMap fun segment => '/' :: segment.toList := by
  rw [Url.Route.render]
  induction list with
  | nil => rfl
  | cons segment rest ih =>
    rw [List.map_cons, String.join_cons, String.toList_append, ih]
    simp

/-- Two targets below one base path are different unless the names that they are made of are the
same. -/
theorem AsksFor.names_eq {own : List String} {c c' : Config} {url url' : Url}
    (h : AsksFor own c url) (h' : AsksFor own c' url') (hdataset : '/' ∉ c.dataset.toList)
    (hdataset' : '/' ∉ c'.dataset.toList) (heq : url.target = url'.target) :
    c.dataset = c'.dataset ∧ c.graphqlApi = c'.graphqlApi := by
  obtain ⟨last, hpath, hdecode⟩ := h.path
  obtain ⟨last', hpath', hdecode'⟩ := h'.path
  rw [Url.target, Url.target, h.query, h'.query, hpath, hpath', String.append_empty,
    String.append_empty, ← String.toList_inj, toList_render_segments, toList_render_segments,
    List.flatMap_append, List.flatMap_append, List.append_cancel_left_eq] at heq
  have hends : c.dataset.toList ++ '/' :: last.toList =
      c'.dataset.toList ++ '/' :: last'.toList := by
    simpa using heq
  have hsplit := congrArg (List.splitOn '/') hends
  rw [List.splitOn_append_cons_self_of_not_mem hdataset,
    List.splitOn_append_cons_self_of_not_mem hdataset', List.cons.injEq] at hsplit
  rw [hsplit.1, List.append_cancel_left_eq, List.cons.injEq, String.toList_inj] at hends
  refine ⟨String.toList_inj.1 hsplit.1, Text.Utf8.bytes_toList_inj.1 ?_⟩
  rw [← hdecode, ← hdecode', hends.2]

/-! ## What a fetch asks for -/

section Configured

variable {c : Config} {path : Path} {host : String} {base : Url}

theorem asksFor_iff (valid : c.IsValid) {own : List String} {url : Url}
    (hpath : url.path = .segments (Url.resolveDots
      (own.rdropWhile (· = "") ++ ["apis", "graphql", c.dataset])
      (Url.segmentsOf "http" (Url.splitTail (Url.tidied c.graphqlApi.toList)).1)))
    (hquery : url.query =
      (Url.splitTail (Url.tidied c.graphqlApi.toList)).2.1.map (Url.encodedQuery "http")) :
    AsksFor own c url ↔ Url.IsSegment c.graphqlApi.toList := by
  obtain ⟨ch, hch, _⟩ := valid.graphqlApi
  rw [← Url.isSegment_iff (List.ne_nil_of_mem hch)
    (own.rdropWhile (· = "") ++ ["apis", "graphql", c.dataset])]
  constructor
  · rintro ⟨⟨last, hasked, hdecode⟩, hnone⟩
    rw [hpath, Url.Route.segments.injEq] at hasked
    rw [hquery, Option.map_eq_none_iff] at hnone
    refine ⟨⟨last, ?_, hdecode⟩, hnone⟩
    rw [hasked, List.append_assoc]
    rfl
  · rintro ⟨⟨last, hasked, hdecode⟩, hnone⟩
    refine ⟨⟨last, ?_, hdecode⟩, by rw [hquery, hnone, Option.map_none]⟩
    rw [hpath, hasked, List.append_assoc]
    rfl

/-- The fetch of one configuration. -/
theorem first_request_of_accepted (accepted : (c.validate path).value = .ok ())
    (configured : c.apiHost = some host) (hbase : Url.IsBase host base) :
    ∃ own, base.path = .segments own ∧ ∀ server,
      ((fetchSchema server (Client.ofConfig c) c).value.requests = [] ↔
        Client.refusesToken c.token = true ∨ base.host.all Http.isHost = false) ∧
      ∀ request ∈ (fetchSchema server (Client.ofConfig c) c).value.requests.head?,
        request.url.scheme = "http" ∧ request.url.host = base.host ∧
        request.url.port = base.port ∧
        (AsksFor own c request.url ↔ Url.IsSegment c.graphqlApi.toList) := by
  have valid := Config.validate_eq_ok.1 accepted
  obtain ⟨own, full, hown, hfull⟩ := exists_isSchemaUrl valid configured hbase
  have hscheme : full.scheme = "http" := hfull.scheme.trans hbase.scheme
  have hsendable : Http.isSendable full = base.host.all Http.isHost := by
    simp [Http.isSendable, hscheme, hfull.host]
  refine ⟨own, hown, fun server => ?_⟩
  rw [← List.head?_eq_none_iff,
    head?_requests_fetchSchema server hfull.parsed (hfull.host ▸ hbase.host_isSome), hsendable]
  refine ⟨by cases Client.refusesToken c.token <;> simp, fun request hrequest => ?_⟩
  rw [Option.mem_def, Option.ite_none_left_eq_some] at hrequest
  obtain ⟨-, hrequest⟩ := hrequest
  cases hrequest
  refine ⟨by simp [hscheme], by simp [hfull.host], by simp [hfull.port], asksFor_iff valid ?_ ?_⟩
  · rw [Client.place_path, hfull.path]
  · rw [Client.place_query, hfull.query]

end Configured

/-- For every valid configuration with a base URL of its own, a fetch sends a request unless the
token cannot stand in a header or the host cannot stand in a request. The first one goes to that
host, and it asks for the dataset and the API below the base path when the name of the API is a
segment that stands for itself, and only then. Two such configurations with the same base URL ask
for the same only when they name the same dataset and the same API. -/
theorem fetchSchema_asks_for_configured {c : Config} {path : Path} {host : String} {base : Url}
    (accepted : (c.validate path).value = .ok ()) (configured : c.apiHost = some host)
    (hbase : Url.IsBase host base) :
    ∃ own, base.path = .segments own ∧
      (∀ server,
        ((fetchSchema server (Client.ofConfig c) c).value.requests = [] ↔
          Client.refusesToken c.token = true ∨ base.host.all Http.isHost = false) ∧
        ∀ request ∈ (fetchSchema server (Client.ofConfig c) c).value.requests.head?,
          request.url.scheme = "http" ∧ request.url.host = base.host ∧
          request.url.port = base.port ∧
          (AsksFor own c request.url ↔ Url.IsSegment c.graphqlApi.toList)) ∧
      ∀ c' path', (Config.validate c' path').value = .ok () → c'.apiHost = some host →
        Url.IsSegment c.graphqlApi.toList → Url.IsSegment c'.graphqlApi.toList →
        (c.dataset, c.graphqlApi) ≠ (c'.dataset, c'.graphqlApi) →
        ∀ server server',
          ∀ request ∈ (fetchSchema server (Client.ofConfig c) c).value.requests.head?,
          ∀ request' ∈ (fetchSchema server' (Client.ofConfig c') c').value.requests.head?,
            request.url.target ≠ request'.url.target := by
  have hplain : ∀ {c : Config} {path : Path}, (c.validate path).value = .ok () →
      '/' ∉ c.dataset.toList := fun accepted hmem =>
    absurd ((Config.validate_eq_ok.1 accepted).dataset _ hmem) (by decide)
  obtain ⟨own, hown, hfirst⟩ := first_request_of_accepted accepted configured hbase
  refine ⟨own, hown, hfirst, ?_⟩
  intro c' path' accepted' configured' hsegment hsegment' hne server server' request hrequest
    request' hrequest' heq
  obtain ⟨own', hown', hfirst'⟩ := first_request_of_accepted accepted' configured' hbase
  obtain rfl : own = own' := by
    rw [hown] at hown'
    cases hown'
    rfl
  have hasks := ((hfirst server).2 request hrequest).2.2.2.2 hsegment
  have hasks' := ((hfirst' server').2 request' hrequest').2.2.2.2 hsegment'
  obtain ⟨hdataset, hapi⟩ := hasks.names_eq hasks' (hplain accepted) (hplain accepted') heq
  exact hne (by rw [hdataset, hapi])

/-- The name of an API can become a query, or lead to the API of another dataset. -/
theorem fetchSchema_asks_for_other :
    ¬ (∀ (c : Config) (path : Path) (host : String) (base : Url),
        (c.validate path).value = .ok () → c.apiHost = some host → Url.IsBase host base →
        ∀ server own, base.path = .segments own →
          ∀ request ∈ (fetchSchema server (Client.ofConfig c) c).value.requests.head?,
            AsksFor own c request.url) ∧
      ¬ (∀ (c c' : Config) (path : Path) (host : String) (base : Url),
        (c.validate path).value = .ok () → (c'.validate path).value = .ok () →
        c.apiHost = some host → c'.apiHost = some host → Url.IsBase host base →
        (c.dataset, c.graphqlApi) ≠ (c'.dataset, c'.graphqlApi) →
        ∀ server, ∀ request ∈ (fetchSchema server (Client.ofConfig c) c).value.requests.head?,
          ∀ request' ∈ (fetchSchema server (Client.ofConfig c') c').value.requests.head?,
            request.url.target ≠ request'.url.target) := by
  have hbase : Url.IsBase "http://h"
      ⟨"http", "", "", some "h", none, .segments [""], none, none⟩ :=
    by decide +kernel
  constructor
  · intro h
    obtain ⟨request, hrequest, hquery⟩ := Option.map_eq_some_iff.1
      (show (fetchSchema (fun _ _ => none)
          (Client.ofConfig ⟨"p", "d", "a?b", none, some "http://h", none, none⟩)
          ⟨"p", "d", "a?b", none, some "http://h", none, none⟩).value.requests.head?.map
            (·.url.query) = some (some "b") by decide +kernel)
    have hasks := h ⟨"p", "d", "a?b", none, some "http://h", none, none⟩ ⟨"c.json"⟩ "http://h" _
      (by decide +kernel) rfl hbase (fun _ _ => none) [""] rfl request hrequest
    rw [hasks.query] at hquery
    cases hquery
  · intro h
    obtain ⟨request, hrequest, htarget⟩ := Option.map_eq_some_iff.1
      (show (fetchSchema (fun _ _ => none)
          (Client.ofConfig ⟨"p", "d", "x", none, some "http://h", none, none⟩)
          ⟨"p", "d", "x", none, some "http://h", none, none⟩).value.requests.head?.map
            (·.url.target) = some "/apis/graphql/d/x" by decide +kernel)
    obtain ⟨request', hrequest', htarget'⟩ := Option.map_eq_some_iff.1
      (show (fetchSchema (fun _ _ => none)
          (Client.ofConfig ⟨"p", "e", "../d/x", none, some "http://h", none, none⟩)
          ⟨"p", "e", "../d/x", none, some "http://h", none, none⟩).value.requests.head?.map
            (·.url.target) = some "/apis/graphql/d/x" by decide +kernel)
    exact h ⟨"p", "d", "x", none, some "http://h", none, none⟩
      ⟨"p", "e", "../d/x", none, some "http://h", none, none⟩ ⟨"c.json"⟩ "http://h" _
      (by decide +kernel) (by decide +kernel) rfl rfl hbase (by decide) (fun _ _ => none)
      request hrequest request' hrequest' (htarget.trans htarget'.symm)

/-- A base URL with a path and slashes behind it, and an API whose name has to be encoded. -/
theorem fetchSchema_asks_for_encoded :
    ∃ own, Url.Route.segments ["v1", "", ""] = .segments own ∧
      (fetchSchema (fun _ _ => none)
          (Client.ofConfig ⟨"p", "d", "my api", none, some "http://h/v1//", none, none⟩)
          ⟨"p", "d", "my api", none, some "http://h/v1//", none, none⟩).value.requests ≠ [] ∧
      ∀ request ∈ (fetchSchema (fun _ _ => none)
          (Client.ofConfig ⟨"p", "d", "my api", none, some "http://h/v1//", none, none⟩)
          ⟨"p", "d", "my api", none, some "http://h/v1//", none, none⟩).value.requests.head?,
        AsksFor own ⟨"p", "d", "my api", none, some "http://h/v1//", none, none⟩ request.url := by
  have hbase : Url.IsBase "http://h/v1//"
      ⟨"http", "", "", some "h", none, .segments ["v1", "", ""], none, none⟩ :=
    by decide +kernel
  have hsegment : Url.IsSegment "my api".toList := by decide
  have accepted : (Config.validate ⟨"p", "d", "my api", none, some "http://h/v1//", none, none⟩
      ⟨"c.json"⟩).value = .ok () := by
    decide +kernel
  obtain ⟨own, hown, hfirst, _⟩ := fetchSchema_asks_for_configured accepted rfl hbase
  obtain ⟨hsent, hasks⟩ := hfirst fun _ _ => none
  refine ⟨own, hown, fun hnone => ?_, fun request hrequest => ?_⟩
  · exact absurd (hsent.1 hnone) (by decide)
  · exact (hasks request hrequest).2.2.2.2 hsegment

end SchemaCatalog.Remote
