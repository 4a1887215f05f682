import SchemaCatalog.FileTree

/-!
# SchemaCatalog.Config.Error

Why there is no configuration.
-/

namespace SchemaCatalog

/-- What is wrong with the contents of a configuration file. -/
inductive ConfigFault where
  | yaml
  | json
  | projectIdBlank
  | datasetBlank
  /-- The dataset has characters that no dataset may have. -/
  | datasetCharacters (dataset : String)
  | graphqlApiBlank
deriving DecidableEq, Repr

def ConfigFault.message : ConfigFault → String
  | yaml => "YAML parse error"
  | json => "JSON parse error"
  | projectIdBlank => "'projectId' must not be empty"
  | datasetBlank => "'dataset' must not be empty"
  | datasetCharacters dataset =>
    "Dataset '" ++ dataset ++ "' may only contain lowercase letters, digits, '_' and '-'"
  | graphqlApiBlank => "'graphqlApi' must not be empty"

inductive ConfigError where
  | io (cause : IoError)
  | invalid (path : Path) (fault : ConfigFault)
  | unsupportedFormat (path : Path)
deriving DecidableEq, Repr

def ConfigError.message : ConfigError → String
  | io cause => "Failed to read config file: " ++ cause.message
  | invalid path fault => "Invalid config in " ++ path.text ++ ": " ++ fault.message
  | unsupportedFormat path => "Unsupported config format: " ++ path.text

end SchemaCatalog
