import TokenSheets.Dimension.Scale
import TokenSheets.Entries
import TokenSheets.Json.Basic
import TokenSheets.Store.Basic

/-!
# Configurations

A configuration says where the two documents are, where sheets are written and how lengths are
converted. Settings of single namespaces stand under their names, in the order of the file.

* `Config.settings`: the settings of a namespace;
* `Config.validate`: both lengths of the scale are above zero;
* `Config.toJson`: a configuration as a JSON object.
-/

namespace TokenSheets

/-- The settings of a namespace. -/
structure Settings where
  /-- The texts of the namespace are written as well. -/
  text : Bool := false
  /-- A command that is run once the namespace is built. -/
  script : Option String := none
deriving DecidableEq, Repr, Inhabited

/-- What a build needs to know. -/
structure Config where
  /-- The main document. -/
  source : Path := ⟨"tokens/core.json"⟩
  /-- The document of the texts. -/
  textSource : Path := ⟨"tokens/font.json"⟩
  /-- The directory of the sheets, with a directory of its own for every namespace. -/
  targetDir : Path := ⟨"css"⟩
  scale : Scale := {}
  /-- Settings by the name of the namespace. -/
  namespaces : Entries String Settings := []

/-- Why there is no configuration to build with. -/
inductive ConfigError where
  /-- The file cannot be read. -/
  | unreadable (path : Path) (cause : ReadFault)
  /-- The text of the file is no configuration. -/
  | malformed (path : Path) (text : String)
  /-- A length of the scale is not above zero. -/
  | invalidScale (scale : Scale)

/-- The message of an error. What is wrong with a text that is no configuration is for the reader of
the format to say: `explain` gives its words. -/
def ConfigError.message (explain : String → String) : ConfigError → String
  | .unreadable path cause => "failed to read " ++ path.text ++ ": " ++ cause.message
  | .malformed path text => "failed to parse " ++ path.text ++ ": " ++ explain text
  | .invalidScale scale =>
    "base font size and base screen width must be positive, got " ++
      Decimal.plainText scale.baseFontSize ++ " and " ++ Decimal.plainText scale.baseScreenWidth

/-- Settings as a JSON object. -/
def Settings.toJson (settings : Settings) : Json :=
  .object [("text", .bool settings.text),
    ("script", match settings.script with
      | some script => .text script
      | none => .null)]

namespace Config

/-- The settings of a namespace; the default ones if the file has none for it. -/
def settings (config : Config) (name : String) : Settings :=
  (config.namespaces.get? name).getD {}

/-- **The configuration can be built with**: both lengths of its scale are above zero. -/
def validate (config : Config) : Except ConfigError Unit :=
  if config.scale.isPositive then .ok () else .error (.invalidScale config.scale)

/-- **A configuration as a JSON object.** -/
def toJson (config : Config) : Json :=
  .object [("source", .text config.source.text), ("text_source", .text config.textSource.text),
    ("target_dir", .text config.targetDir.text),
    ("units", .object [("base_font_size", .double config.scale.baseFontSize),
      ("base_screen_width", .double config.scale.baseScreenWidth)]),
    ("namespaces", .object (config.namespaces.map fun p => (p.1, p.2.toJson)))]

end Config

end TokenSheets
