import TokenSheets.Config.Basic
import TokenSheets.Toml.Reader

/-!
# Configuration files

A configuration file is a TOML document. Every key may be left out and keys that nobody knows are
passed over, but a value of the wrong type refuses the whole file. Where a record is expected, a
list gives its fields in order.

* `Config.ofToml?`: the configuration of a document;
* `Config.load`: the configuration of a file;
* `Config.loadOrDefault`: a file that is named must be there, the usual one need not.
-/

namespace TokenSheets

namespace Toml

/-- A string. -/
def text? : Toml → Option String
  | .text s => some s
  | _ => none

/-- A truth value. -/
def bool? : Toml → Option Bool
  | .bool b => some b
  | _ => none

/-- A number, with or without a fraction. -/
def number? : Toml → Option Float
  | .float x => some x
  | .whole n => some (Float.ofInt n)
  | _ => none

/-- The members of a table. -/
def members? : Toml → Option (Entries String Toml)
  | .table members => some members
  | _ => none

/-- The fields of a record: the members of a table, or the items of a list in the order of `names`.
A date or time has none of them. -/
def record? (names : List String) : Toml → Option (Entries String Toml)
  | .table members => some members
  | .list items => some (names.zip items)
  | .moment => some []
  | _ => none

/-- A field, if `read` accepts what is there; `default` if nothing is there. -/
def field? {α : Type} (read : Toml → Option α) (key : String) (default : α)
    (fields : Entries String Toml) : Option α :=
  match fields.get? key with
  | some value => read value
  | none => some default

end Toml

/-- The settings that a value gives. -/
def Settings.ofToml? (value : Toml) : Option Settings := do
  let fields ← Toml.record? ["text", "script"] value
  return {
    text := ← Toml.field? Toml.bool? "text" false fields
    script := ← Toml.field? (fun value => (Toml.text? value).map some) "script" none fields }

/-- The scale that a value gives. -/
def Scale.ofToml? (value : Toml) : Option Scale := do
  let fields ← Toml.record? ["base_font_size", "base_screen_width"] value
  let default : Scale := {}
  return {
    baseFontSize := ← Toml.field? Toml.number? "base_font_size" default.baseFontSize fields
    baseScreenWidth :=
      ← Toml.field? Toml.number? "base_screen_width" default.baseScreenWidth fields }

namespace Config

/-- The settings of all namespaces that a value gives. -/
def namespacesOfToml? (value : Toml) : Option (Entries String Settings) := do
  (← Toml.members? value).mapM fun p => do return (p.1, ← Settings.ofToml? p.2)

/-- A path that a value gives. -/
def pathOfToml? (value : Toml) : Option Path := (Toml.text? value).map Path.mk

/-- **The configuration of a document.** -/
def ofToml? (fields : Entries String Toml) : Option Config := do
  let default : Config := {}
  return {
    source := ← Toml.field? pathOfToml? "source" default.source fields
    textSource := ← Toml.field? pathOfToml? "text_source" default.textSource fields
    targetDir := ← Toml.field? pathOfToml? "target_dir" default.targetDir fields
    scale := ← Toml.field? Scale.ofToml? "units" default.scale fields
    namespaces := ← Toml.field? namespacesOfToml? "namespaces" default.namespaces fields }

/-- The configuration of a text. -/
def read? (text : String) : Option Config := (Toml.read? text).bind ofToml?

/-- **The configuration of a file.** -/
def load (store : Store) (path : Path) : Except ConfigError Config :=
  match store.loadText path with
  | .error cause => .error (.unreadable path cause)
  | .ok text =>
    match read? text with
    | none => .error (.malformed path text)
    | some config => .ok config

/-- The file that is read if none is named. -/
def defaultPath : Path := ⟨"design-tokens.toml"⟩

/-- **The configuration of the file that is named**, or of the usual one, if it is there. -/
def loadOrDefault (store : Store) : Option Path → Except ConfigError Config
  | some path => load store path
  | none => if store.isThere defaultPath then load store defaultPath else .ok {}

end Config

end TokenSheets
