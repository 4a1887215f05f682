import SchemaCatalog.Proofs.Config.Token
import SchemaCatalog.Proofs.Config.Written
import SchemaCatalog.Proofs.Yaml.Record

/-!
# SchemaCatalog.Proofs.Config.PlainFile

JSON configurations in the file whose name leaves the format open.

Such a file is read as YAML first, so a JSON text in it must not mean something else there. The
text of a configuration is a mapping of quoted texts and at most one number (`leaves`), and quotes
are what keeps a text from being null, a number or a merge key. So every key finds the node that
was written under it, and the node reads back as its setting (`readYaml?_render`).
-/

namespace SchemaCatalog.Config

open Yaml (Leaf Node Style)

/-! ## Whole numbers -/

theorem digit?_ofNat : ∀ d < 10, digit? 10 (Char.ofNat ('0'.toNat + d)) = some d := by decide

theorem digits_values (n : Nat) : ∃ values, (Json.Writer.digits n).mapM (digit? 10) = some values ∧
    values.foldl (fun n d => n * 10 + d) 0 = n := by
  fun_induction Json.Writer.digits n with
  | case1 n h =>
    refine ⟨[n], ?_, by simp⟩
    rw [List.mapM_cons, digit?_ofNat n h]
    rfl
  | case2 n h ih =>
    obtain ⟨values, hvalues, hsum⟩ := ih
    refine ⟨values ++ [n % 10], ?_, ?_⟩
    · rw [List.mapM_append, hvalues, List.mapM_cons,
        digit?_ofNat (n % 10) (Nat.mod_lt _ (by decide))]
      rfl
    · rw [List.foldl_append, hsum]
      simp only [List.foldl_cons, List.foldl_nil]
      omega

theorem natOfDigits?_digits (n : Nat) : natOfDigits? 10 (Json.Writer.digits n) = some n := by
  obtain ⟨values, hvalues, hsum⟩ := digits_values n
  have hfilter : (Json.Writer.digits n).filter (· ≠ '_') = Json.Writer.digits n := by
    rw [List.filter_eq_self]
    intro c hc
    have hdigit := List.all_eq_true.1 (Json.Reader.all_digits n) c hc
    simp [Yaml.Plain.ne_of_isDigit (d := '_') hdigit rfl]
  rw [natOfDigits?, hfilter]
  obtain ⟨c, more, hdigits, _⟩ := Leaf.digits_cons n
  rw [hdigits] at hvalues ⊢
  simp only [hvalues, Option.map_some, hsum]

theorem natOfChars?_digits (n : Nat) : natOfChars? (Json.Writer.digits n) = some n := by
  rw [← natOfDigits?_digits n]
  rcases Json.Reader.digits_cases n with ⟨_, hdigits⟩ | ⟨c, more, hdigits, hc, _⟩
  · rw [hdigits]
    rfl
  · rw [hdigits]
    unfold natOfChars?
    split <;> first | rfl | (rename_i heq; cases heq; exact absurd rfl hc)

theorem trim_of_forall {cs : List Char} (h : ∀ c ∈ cs, Text.isBlank c = false) :
    Text.trim cs = cs := by
  have hdrop : ∀ {cs : List Char}, (∀ c ∈ cs, Text.isBlank c = false) →
      cs.dropWhile Text.isBlank = cs := by
    intro cs h
    cases cs with
    | nil => rfl
    | cons c cs => rw [List.dropWhile_cons_of_neg (by simp [h c List.mem_cons_self])]
  rw [Text.trim, Text.trimBy, hdrop h, hdrop fun c hc => h c (List.mem_reverse.1 hc),
    List.reverse_reverse]

theorem isBlank_of_isDigit {c : Char} (h : Yaml.isDigit c = true) : Text.isBlank c = false := by
  simp only [Yaml.isDigit, Bool.and_eq_true, decide_eq_true_eq] at h
  have hlow : 48 ≤ c.toNat := h.1
  have hhigh : c.toNat ≤ 57 := h.2
  simp only [Text.isBlank, Text.isBlankCode, Bool.or_eq_false_iff, Bool.and_eq_false_iff,
    decide_eq_false_iff_not]
  omega

theorem wholeNumber?_digits (n : UInt64) :
    wholeNumber? (String.ofList (Json.Writer.digits n.toNat)) = some n := by
  have htrim : Text.trim (Json.Writer.digits n.toNat) = Json.Writer.digits n.toNat :=
    trim_of_forall fun c hc =>
      isBlank_of_isDigit (List.all_eq_true.1 (Json.Reader.all_digits n.toNat) c hc)
  obtain ⟨c, more, hdigits, hc⟩ := Leaf.digits_cons n.toNat
  have hread := natOfChars?_digits n.toNat
  rw [wholeNumber?, String.toList_ofList, htrim]
  rw [hdigits] at hread ⊢
  split
  · rename_i heq
    cases heq
    exact absurd hc (by decide)
  · rw [hread, Option.bind_some, if_pos n.toNat_lt_size, UInt64.ofNat_toNat]

/-! ## Entries -/

section Entries

variable {α : Type} {entries : List (String × Node)} {key : String}

theorem entry?_one (leaf : Leaf) (only : entries.filter (·.1 = key) = [(key, leaf.node)])
    (default : Option α) (read : Node → Option α) :
    entry? entries key default read = read leaf.node := by
  unfold entry?
  rw [only]

/-- An option comes back, and as absent when it was not written. -/
theorem entry?_option (write : α → Leaf) (o : Option α) {read : Node → Option (Option α)}
    (named : entries.filter (·.1 = key) = o.toList.map fun a => (key, (write a).node))
    (back : ∀ a, read (write a).node = some (some a)) :
    entry? entries key (some none) read = some o := by
  unfold entry?
  rw [named]
  cases o with
  | none => rfl
  | some a => exact back a

end Entries

theorem option?_text (s : String) : option? nodeText? (Leaf.text s).node = some (some s) := rfl

theorem toLower_of_isDigit {c : Char} (h : Yaml.isDigit c = true) : c.toLower = c := by
  simp only [Yaml.isDigit, Bool.and_eq_true, decide_eq_true_eq] at h
  have hhigh : c.val ≤ '9'.val := h.2
  have hcapital : ¬ (c.val ≥ 'A'.val ∧ c.val ≤ 'Z'.val) := by
    rintro ⟨hlow, _⟩
    exact absurd (UInt32.le_trans hlow hhigh) (by decide)
  exact dif_neg hcapital

/-- A number is no way to write that there is nothing. -/
theorem isNull_digits (style : Style) (n : Nat) :
    Node.isNull style (String.ofList (Json.Writer.digits n)) = false := by
  obtain ⟨c, more, hdigits, hc⟩ := Leaf.digits_cons n
  have hne := fun d => Yaml.Plain.ne_of_isDigit (d := d) hc
  have hlower : (String.ofList (Json.Writer.digits n)).toLower.toList.head? = some c := by
    change ((String.ofList (Json.Writer.digits n)).map Char.toLower).toList.head? = some c
    rw [hdigits, String.toList_map, String.toList_ofList, List.map_cons, List.head?_cons,
      toLower_of_isDigit hc]
  rw [Node.isNull]
  generalize (String.ofList (Json.Writer.digits n)).toLower = text at hlower
  have hempty : text ≠ "" := by rintro rfl; cases hlower
  have htilde : text ≠ "~" := by rintro rfl; cases hlower; exact hne _ rfl rfl
  have hnull : text ≠ "null" := by rintro rfl; cases hlower; exact hne _ rfl rfl
  simp [hempty, htilde, hnull]

theorem option?_nat (n : UInt64) : option? nodeNumber? (Leaf.nat n.toNat).node = some (some n) := by
  have habsent : isAbsent (Leaf.nat n.toNat).node = false := by
    obtain ⟨c, more, hdigits, _⟩ := Leaf.digits_cons n.toNat
    have hne : String.ofList (Json.Writer.digits n.toNat) ≠ "" := by simp [hdigits]
    simp [isAbsent, Leaf.node, Leaf.style, Leaf.content, isNull_digits, hne]
  rw [option?, habsent, if_neg Bool.false_ne_true]
  simp only [Leaf.node, Leaf.content, nodeNumber?, wholeNumber?_digits, Option.map_some]

/-- A member for an option that is there. -/
def optionLeaf {α : Type} (key : String) (value : α → Leaf) (o : Option α) :
    List (String × Leaf) :=
  o.toList.map fun a => (key, value a)

/-- The members of a configuration that is written. -/
def leaves (c : Config) : List (String × Leaf) :=
  [("projectId", .text c.projectId), ("dataset", .text c.dataset),
    ("graphqlApi", .text c.graphqlApi)] ++
    optionLeaf "token" .text c.token ++ optionLeaf "apiHost" .text c.apiHost ++
    optionLeaf "typePrefix" .text c.typePrefix ++
    optionLeaf "timeout" (fun n : UInt64 => .nat n.toNat) c.timeout

theorem toJson_eq (c : Config) : c.toJson = Json.record (Yaml.jsonMembers c.leaves) := by
  have hoption : ∀ {α : Type} (key : String) (value : α → Leaf) (o : Option α),
      Yaml.jsonMembers (optionLeaf key value o) =
        optionMember key (fun a => (value a).toJson) o := by
    intro α key value o
    cases o <;> rfl
  simp only [Yaml.jsonMembers] at hoption
  simp only [leaves, Yaml.jsonMembers, List.map_append, hoption]
  rfl

theorem nodup_leaves (c : Config) : (c.leaves.map (·.1)).Nodup := by
  have hoption : ∀ {α : Type} (key : String) (value : α → Leaf) (o : Option α),
      ((optionLeaf key value o).map (·.1)).Sublist [key] := by
    intro α key value o
    cases o
    · exact List.nil_sublist _
    · exact List.Sublist.refl _
  have hkeys : (c.leaves.map (·.1)).Sublist (["projectId", "dataset", "graphqlApi"] ++ ["token"] ++
      ["apiHost"] ++ ["typePrefix"] ++ ["timeout"]) := by
    simp only [leaves, List.map_append]
    exact ((((List.Sublist.refl _).append (hoption _ _ _)).append (hoption _ _ _)).append
      (hoption _ _ _)).append (hoption _ _ _)
  exact hkeys.nodup (by decide)

theorem filter_optionLeaf {α : Type} (key other : String) (value : α → Leaf) (o : Option α) :
    ((optionLeaf other value o).map fun member => (member.1, member.2.node)).filter (·.1 = key) =
      if other = key then o.toList.map fun a => (key, (value a).node) else [] := by
  cases o with
  | none => simp [optionLeaf]
  | some a => by_cases h : other = key <;> simp [optionLeaf, h]

theorem ofEntries?_leaves (c : Config) :
    ofEntries? (c.leaves.map fun member => (member.1, member.2.node)) = some c := by
  -- What stands under each of the seven keys.
  have named : ∀ key, (c.leaves.map fun member => (member.1, member.2.node)).filter (·.1 = key) =
      _ := fun key => by
    simp only [leaves, List.map_append, List.filter_append, filter_optionLeaf]
    rfl
  rw [ofEntries?, entry?_one (.text c.projectId) (by rw [named]; simp),
    entry?_one (.text c.dataset) (by rw [named]; simp),
    entry?_one (.text c.graphqlApi) (by rw [named]; simp),
    entry?_option .text c.token (by rw [named]; simp) option?_text,
    entry?_option .text c.apiHost (by rw [named]; simp) option?_text,
    entry?_option .text c.typePrefix (by rw [named]; simp) option?_text,
    entry?_option _ c.timeout (by rw [named]; simp) option?_nat]
  rfl

theorem mapM_keys (members : List (String × Leaf)) :
    ((members.map Yaml.memberPair).mapM fun pair => (nodeText? pair.1).map (·, pair.2)) =
      some (members.map fun member => (member.1, member.2.node)) := by
  induction members with
  | nil => rfl
  | cons member members ih =>
    rw [List.map_cons, List.mapM_cons, ih]
    rfl

/-- A configuration that is written as JSON is read as YAML as it was written. -/
theorem readYaml?_render (layout : Json.Layout) (c : Config) :
    readYaml? (c.toJson.render layout) = some c := by
  have hne : c.leaves ≠ [] := by simp [leaves]
  have hvalid := Node.isValid_members c.nodup_leaves
  have hentries := Node.entries?_members c.nodup_leaves
  rw [readYaml?, toJson_eq, Yaml.read?_record layout hne, Option.bind_some, ofNode?]
  simp only [hvalid, hentries, Bool.not_true, Bool.false_eq_true, if_false, Option.bind_eq_bind,
    Option.bind_some, mapM_keys, ofEntries?_leaves]

/-! ## Loading -/

theorem extension?_of_plain {path : Path} (plain : path.fileName? = some plainFileName) :
    path.extension? = none := by
  rw [Path.extension?, plain]
  decide

/-- A valid configuration that is written as JSON comes back from a file whose name leaves the
format open, the same as from a JSON file. The attempt to read it as YAML, which is made first,
finds that configuration itself, so it is never another one that wins. -/
theorem load_plain_of_written (c : Config) (layout : Json.Layout) {path : Path}
    (plain : path.fileName? = some plainFileName) (valid : c.IsValid) :
    (load (c.toJson.render layout) path).value = .ok c ∧
    (∀ other : Path, other.extension? = some "json" →
      (load (c.toJson.render layout) other).value = (load (c.toJson.render layout) path).value) ∧
    readYaml? (c.toJson.render layout) = some c := by
  have hyaml := readYaml?_render layout c
  have hformat : Format.of? (path.extension?.getD "") (path.fileName?.getD "") = some .either := by
    rw [extension?_of_plain plain, plain]
    rfl
  have hplain : (load (c.toJson.render layout) path).value = .ok c := by
    rw [value_load_of_read hformat (read_of_both hyaml (readJson?_render layout c) .either),
      (fault?_eq_none_iff c).2 valid]
  refine ⟨hplain, fun other json => ?_, hyaml⟩
  rw [hplain]
  exact ((load_json_of_written c layout json).1 c).2 ⟨rfl, valid⟩

/-- Texts that mean something else in YAML when they are not in quotes, and the largest number. -/
theorem load_plain_of_written_special :
    (load (toJson ⟨"null", "1", "<<", some "# x", some " : \t\n\x01 ", some "~",
        some 18446744073709551615⟩ |>.render .compact) ⟨"a.b/.typemaprc"⟩).value =
      .ok ⟨"null", "1", "<<", some "# x", some " : \t\n\x01 ", some "~",
        some 18446744073709551615⟩ := by
  refine (load_plain_of_written _ .compact ?_ ((fault?_eq_none_iff _).1 ?_)).1
  · decide +kernel
  · decide +kernel

end SchemaCatalog.Config
