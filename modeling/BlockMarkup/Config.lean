import BlockMarkup.Style.Writer
import BlockMarkup.Tree.Click

namespace BlockMarkup

structure Config where
  document : Option Text
  indent : Nat
  targets : TargetOptions
deriving DecidableEq

inductive ConfigError where
  | unreadable (reason : Text)
  | malformed (reason : Text)
  | badIndent (indent : Nat)
  | badClassPrefix (classPrefix : Text)
deriving DecidableEq

namespace Config

def default : Config := ⟨none, Style.defaultIndent, .default⟩

def maxIndent : Nat := 8

def check (config : Config) : Except ConfigError Config :=
  if config.indent = 0 || config.indent > maxIndent then .error (.badIndent config.indent)
  else if config.targets.classPrefix = [] || config.targets.classPrefix.any isBlank then
    .error (.badClassPrefix config.targets.classPrefix)
  else .ok config

end Config

def ConfigError.message (path : Text) : ConfigError → Text
  | .unreadable reason => "Failed to read config file at ".toList ++ path ++ ':' :: ' ' :: reason
  | .malformed reason => "Failed to parse config file at ".toList ++ path ++ ':' :: ' ' :: reason
  | .badIndent indent =>
    "Invalid value in config file at ".toList ++ path ++
      ": style.indent must be between 1 and ".toList ++ decimal Config.maxIndent ++
      ", got ".toList ++ decimal indent
  | .badClassPrefix classPrefix =>
    "Invalid value in config file at ".toList ++ path ++
      ": targets.class_prefix must be a single non-empty word, got '".toList ++ classPrefix ++
      ['\'']

end BlockMarkup
