import SchemaCatalog.Config
import SchemaCatalog.Config.Error
import SchemaCatalog.Text.Blank

/-!
# SchemaCatalog.Config.Validation

Which configurations can be used.

The project and the API have a character that is no blank, and the dataset is made of small
letters, digits, underscores and hyphens. The first rule that is broken is the one reported.
-/

namespace SchemaCatalog.Config

/-- The characters of the names of datasets. -/
def isDatasetChar (c : Char) : Bool :=
  ('a' ≤ c && c ≤ 'z') || ('0' ≤ c && c ≤ '9') || c = '_' || c = '-'

/-- The first rule that a configuration breaks. -/
def fault? (c : Config) : Option ConfigFault :=
  if Text.isBlankText c.projectId then some .projectIdBlank
  else if Text.isBlankText c.dataset then some .datasetBlank
  else if !c.dataset.toList.all isDatasetChar then some (.datasetCharacters c.dataset)
  else if Text.isBlankText c.graphqlApi then some .graphqlApiBlank
  else none

/-- What a usable configuration is, rule by rule. -/
structure IsValid (c : Config) : Prop where
  projectId : ∃ ch ∈ c.projectId.toList, Text.isBlank ch = false
  dataset_ne_empty : c.dataset.toList ≠ []
  dataset : ∀ ch ∈ c.dataset.toList, isDatasetChar ch = true
  graphqlApi : ∃ ch ∈ c.graphqlApi.toList, Text.isBlank ch = false

end SchemaCatalog.Config
