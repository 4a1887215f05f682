import SchemaCatalog.Proofs.Config.Loading
import SchemaCatalog.Proofs.Json.RoundTrip

/-!
# SchemaCatalog.Proofs.Config.Written

Configurations that are written as JSON and loaded again.

The JSON value of a configuration holds each setting once and no option that is absent, so every
key finds what was written under it, or nothing (`member?_one`, `member?_option`), and the reader
gives the configuration back (`ofJson?_toJson`). What is loaded then hangs on the rules alone.
`Breaks` says of each rule, without a word about the others, how a configuration breaks it, and
`BreaksFirst` adds the order of the rules; the check reports exactly that one
(`fault?_eq_some_iff`).
-/

namespace SchemaCatalog.Config

/-! ## Members -/

section Members

variable {α : Type} {members : List (Option String × Json)} {key : String}

theorem member?_one (value : Json) (only : Json.membersNamed key members = [value])
    (default : Option α) (read : Json → Option α) :
    member? members key default read = read value := by
  rw [member?, only]

/-- An option comes back, and as absent when it was not written. -/
theorem member?_option (write : α → Json) (o : Option α) {read : Json → Option (Option α)}
    (named : Json.membersNamed key members = o.toList.map write)
    (back : ∀ a, read (write a) = some (some a)) :
    member? members key (some none) read = some o := by
  rw [member?, named]
  cases o with
  | none => rfl
  | some a => exact back a

theorem filter_optionMember (key other : String) (write : α → Json) (o : Option α) :
    (optionMember other write o).filter (·.1 = key) =
      if other = key then optionMember other write o else [] := by
  cases o with
  | none => simp [optionMember]
  | some a => by_cases h : other = key <;> simp [optionMember, h]

theorem map_optionMember (key : String) (write : α → Json) (o : Option α) :
    (optionMember key write o).map (·.2) = o.toList.map write := by
  cases o <;> rfl

end Members

/-! ## Reading what was written -/

theorem seconds?_nat (n : UInt64) : seconds? (.nat n.toNat) = some (some n) := by
  rw [Json.nat, seconds?, if_pos n.toNat_lt_size, UInt64.ofNat_toNat]

theorem whole_toJson (c : Config) : Json.Whole c.toJson := by
  have hoption : ∀ {α : Type} (key : String) (write : α → Json) (o : Option α),
      (∀ a, Json.Whole (write a)) → ∀ member ∈ optionMember key write o, Json.Whole member.2 := by
    intro α key write o hwrite member hmember
    cases o with
    | none => cases hmember
    | some a =>
      rw [optionMember, List.mem_singleton] at hmember
      rw [hmember]
      exact hwrite a
  have htext : ∀ s, Json.Whole (Json.text s) := fun s => .string (some s)
  refine .object fun member hmember => ?_
  obtain ⟨written, hwritten, rfl⟩ := List.mem_map.1 hmember
  simp only [List.mem_append] at hwritten
  rcases hwritten with (((h | h) | h) | h) | h
  · simp only [List.mem_cons, List.not_mem_nil, or_false] at h
    rcases h with rfl | rfl | rfl <;> exact htext _
  · exact hoption _ _ _ htext _ h
  · exact hoption _ _ _ htext _ h
  · exact hoption _ _ _ htext _ h
  · exact hoption _ _ _ (fun n : UInt64 => .number false n.toNat) _ h

theorem ofJson?_toJson (c : Config) : ofJson? c.toJson = some c := by
  -- What stands under each of the seven keys.
  have named := fun key : String => Json.membersNamed_texts key ([("projectId", .text c.projectId),
    ("dataset", .text c.dataset), ("graphqlApi", .text c.graphqlApi)] ++
    optionMember "token" .text c.token ++ optionMember "apiHost" .text c.apiHost ++
    optionMember "typePrefix" .text c.typePrefix ++
    optionMember "timeout" (fun n : UInt64 => .nat n.toNat) c.timeout)
  simp only [List.filter_append, filter_optionMember] at named
  rw [toJson, Json.record, ofJson?, ofMembers?, if_neg (by simp)]
  rw [member?_one (.text c.projectId) (by rw [named]; simp),
    member?_one (.text c.dataset) (by rw [named]; simp),
    member?_one (.text c.graphqlApi) (by rw [named]; simp),
    member?_option .text c.token (by rw [named]; simp [map_optionMember]) fun _ => rfl,
    member?_option .text c.apiHost (by rw [named]; simp [map_optionMember]) fun _ => rfl,
    member?_option .text c.typePrefix (by rw [named]; simp [map_optionMember]) fun _ => rfl,
    member?_option _ c.timeout (by rw [named]; simp [map_optionMember]) seconds?_nat]
  rfl

/-- A configuration is read as it was written, whatever is in it. -/
theorem readJson?_render (layout : Json.Layout) (c : Config) :
    readJson? (c.toJson.render layout) = some c := by
  rw [readJson?, Json.read?_render layout (whole_toJson c), Option.bind_some, ofJson?_toJson]

/-! ## The first rule that is broken -/

/-- A rule that a configuration breaks. -/
inductive Breaks (c : Config) : ConfigFault → Prop
  | projectId (blank : ∀ ch ∈ c.projectId.toList, Text.isBlank ch = true) :
      Breaks c .projectIdBlank
  | dataset (blank : ∀ ch ∈ c.dataset.toList, Text.isBlank ch = true) : Breaks c .datasetBlank
  | characters {ch : Char} (there : ch ∈ c.dataset.toList) (h : isDatasetChar ch = false) :
      Breaks c (.datasetCharacters c.dataset)
  | graphqlApi (blank : ∀ ch ∈ c.graphqlApi.toList, Text.isBlank ch = true) :
      Breaks c .graphqlApiBlank

/-- The rules in their order; what is no rule comes last. -/
def rank : ConfigFault → Nat
  | .projectIdBlank => 0
  | .datasetBlank => 1
  | .datasetCharacters _ => 2
  | .graphqlApiBlank => 3
  | .yaml | .json => 4

/-- A rule is broken and none before it is. -/
def BreaksFirst (c : Config) (fault : ConfigFault) : Prop :=
  c.Breaks fault ∧ ∀ earlier, rank earlier < rank fault → ¬ c.Breaks earlier

variable {c : Config} {fault other : ConfigFault}

theorem Breaks.eq_of_rank (h : c.Breaks fault) (h' : c.Breaks other)
    (hrank : rank fault = rank other) : fault = other := by
  cases h <;> cases h' <;> first | rfl | cases hrank

theorem BreaksFirst.unique (h : c.BreaksFirst fault) (h' : c.BreaksFirst other) :
    fault = other := by
  refine h.1.eq_of_rank h'.1 ?_
  by_contra hne
  rcases Nat.lt_or_gt_of_ne hne with hlt | hlt
  · exact h'.2 _ hlt h.1
  · exact h.2 _ hlt h'.1

theorem breaks_projectId_iff : c.Breaks .projectIdBlank ↔ Text.isBlankText c.projectId = true := by
  rw [Text.isBlankText, List.all_eq_true]
  exact ⟨fun h => by cases h; assumption, .projectId⟩

theorem breaks_dataset_iff : c.Breaks .datasetBlank ↔ Text.isBlankText c.dataset = true := by
  rw [Text.isBlankText, List.all_eq_true]
  exact ⟨fun h => by cases h; assumption, .dataset⟩

theorem breaks_characters_iff {text : String} : c.Breaks (.datasetCharacters text) ↔
    text = c.dataset ∧ c.dataset.toList.all isDatasetChar = false := by
  rw [List.all_eq_false]
  constructor
  · rintro ⟨⟩
    rename_i ch there h
    exact ⟨rfl, ch, there, by simp [h]⟩
  · rintro ⟨rfl, ch, there, h⟩
    exact .characters there (by simpa using h)

theorem breaks_graphqlApi_iff :
    c.Breaks .graphqlApiBlank ↔ Text.isBlankText c.graphqlApi = true := by
  rw [Text.isBlankText, List.all_eq_true]
  exact ⟨fun h => by cases h; assumption, .graphqlApi⟩

theorem breaksFirst_of_fault? (h : c.fault? = some fault) : c.BreaksFirst fault := by
  rw [fault?] at h
  split at h
  · cases h
    exact ⟨breaks_projectId_iff.2 ‹_›, fun earlier hlt => absurd hlt (Nat.not_lt_zero _)⟩
  rename_i hproject
  rw [← breaks_projectId_iff] at hproject
  split at h
  · cases h
    refine ⟨breaks_dataset_iff.2 ‹_›, fun earlier hlt => ?_⟩
    cases earlier with
    | projectIdBlank => exact hproject
    | _ => simp [rank] at hlt
  rename_i hdataset
  rw [← breaks_dataset_iff] at hdataset
  split at h
  · rename_i hsome
    rw [Bool.not_eq_true'] at hsome
    cases h
    refine ⟨breaks_characters_iff.2 ⟨rfl, hsome⟩, fun earlier hlt => ?_⟩
    cases earlier with
    | projectIdBlank => exact hproject
    | datasetBlank => exact hdataset
    | _ => simp [rank] at hlt
  rename_i hall
  have hcharacters : ∀ text, ¬ c.Breaks (.datasetCharacters text) := by
    intro text hbroken
    simp [(breaks_characters_iff.1 hbroken).2] at hall
  split at h
  · cases h
    refine ⟨breaks_graphqlApi_iff.2 ‹_›, fun earlier hlt => ?_⟩
    cases earlier with
    | projectIdBlank => exact hproject
    | datasetBlank => exact hdataset
    | datasetCharacters text => exact hcharacters text
    | _ => simp [rank] at hlt
  · cases h

theorem IsValid.not_breaks (h : c.IsValid) : ¬ c.Breaks fault := by
  rintro (blank | blank | ⟨there, hch⟩ | blank)
  · obtain ⟨ch, hmem, hch⟩ := h.projectId
    simp [blank ch hmem] at hch
  · obtain ⟨ch, hmem⟩ := List.exists_mem_of_ne_nil _ h.dataset_ne_empty
    have hch := isBlank_of_isDatasetChar (h.dataset ch hmem)
    simp [blank ch hmem] at hch
  · simp [h.dataset _ there] at hch
  · obtain ⟨ch, hmem, hch⟩ := h.graphqlApi
    simp [blank ch hmem] at hch

/-- The check reports the first rule that is broken. -/
theorem fault?_eq_some_iff : c.fault? = some fault ↔ c.BreaksFirst fault := by
  refine ⟨breaksFirst_of_fault?, fun h => ?_⟩
  cases hfault : c.fault? with
  | none => exact absurd h.1 ((fault?_eq_none_iff c).1 hfault).not_breaks
  | some found => rw [(breaksFirst_of_fault? hfault).unique h]

/-! ## Loading what was written -/

/-- A text that denotes a configuration in the format of its path is loaded, unless it breaks a
rule. -/
theorem value_load_of_read {contents : String} {path : Path} {format : Format}
    (hformat : Format.of? (path.extension?.getD "") (path.fileName?.getD "") = some format)
    (hread : format.read contents = .ok c) : (load contents path).value =
      match c.fault? with
      | some fault => .error (.invalid path fault)
      | none => .ok c := by
  simp only [load, Logged.value_bind, hformat, hread, validate]
  cases c.fault? with
  | none => rfl
  | some fault => rfl

/-- A configuration in a JSON file is loaded as it was written when it is valid. When it is not,
the first rule that it breaks is reported; the text is never refused as JSON. -/
theorem load_json_of_written (c : Config) (layout : Json.Layout) {path : Path}
    (json : path.extension? = some "json") :
    (∀ c', (load (c.toJson.render layout) path).value = .ok c' ↔ c' = c ∧ c.IsValid) ∧
    (∀ error, (load (c.toJson.render layout) path).value = .error error ↔
      ∃ fault, c.BreaksFirst fault ∧ error = .invalid path fault) ∧
    (load (c.toJson.render layout) path).value ≠ .error (.invalid path .json) := by
  have hformat : Format.of? (path.extension?.getD "") (path.fileName?.getD "") = some .json := by
    rw [json]
    rfl
  have hread : Format.json.read (c.toJson.render layout) = .ok c := by
    rw [Format.read, readJson?_render]
  rw [value_load_of_read hformat hread]
  cases hfault : c.fault? with
  | none =>
    have hvalid := (fault?_eq_none_iff c).1 hfault
    refine ⟨fun c' => ?_, fun error => ?_, by simp⟩
    · simp [hvalid, eq_comm]
    · simp [BreaksFirst, hvalid.not_breaks]
  | some fault =>
    have hfirst := fault?_eq_some_iff.1 hfault
    have hinvalid : ¬ c.IsValid := fun h => h.not_breaks hfirst.1
    refine ⟨fun c' => by simp [hinvalid], fun error => ⟨fun h => ?_, ?_⟩, ?_⟩
    · cases h
      exact ⟨fault, hfirst, rfl⟩
    · rintro ⟨other, hother, rfl⟩
      rw [hfirst.unique hother]
    · intro h
      cases h
      exact nomatch hfirst.1

/-- Texts with quotes, control characters and characters beyond U+FFFF, and the largest number; of
two broken rules the one about the characters of the dataset comes before that about the API. -/
theorem load_json_of_written_escaped :
    (load (toJson ⟨"p\"\\\n", "d-1", "\x00😀", some "", none, some " ", some 18446744073709551615⟩
      |>.render .pretty) ⟨"a.b/c.json"⟩).value =
        .ok ⟨"p\"\\\n", "d-1", "\x00😀", some "", none, some " ", some 18446744073709551615⟩ ∧
    (load (toJson ⟨"p", "Big", "", none, none, none, none⟩ |>.render .compact) ⟨"c.json"⟩).value =
      .error (.invalid ⟨"c.json"⟩ (.datasetCharacters "Big")) := by
  constructor
  · refine ((load_json_of_written _ .pretty rfl).1 _).2 ⟨rfl, (fault?_eq_none_iff _).1 ?_⟩
    decide +kernel
  · refine ((load_json_of_written _ .compact rfl).2.1 _).2 ⟨_, fault?_eq_some_iff.1 ?_, rfl⟩
    decide +kernel

end SchemaCatalog.Config
