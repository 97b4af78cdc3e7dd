import TokenSheets.Config.Reader
import TokenSheets.Namespace.Run

/-!
# The command line

Arguments are read from left to right. The first one that is wrong ends the program as misuse, and
the first one that asks for help or for the version ends it as success; otherwise the options lie
over the configuration file, and that over the defaults.

* `Invocation.ofArguments`: what the arguments ask for;
* `Options.config`: the configuration that is used;
* `CommandLine.run`: what the program does to the store, and its verdict;
* `Verdict.status`: how the program ends.
-/

namespace TokenSheets

/-- The options, as far as they are given. -/
structure Options where
  /-- The configuration file. -/
  config : Option Path := none
  source : Option Path := none
  textSource : Option Path := none
  targetDir : Option Path := none
  baseFontSize : Option Float := none
  baseScreenWidth : Option Float := none

/-- What the arguments ask for. -/
inductive Invocation where
  | build (options : Options)
  /-- Help or the version. -/
  | inform
  | misuse

/-- An option that takes a value. -/
inductive OptionName where
  | config
  | source
  | textSource
  | targetDir
  | baseFontSize
  | baseScreenWidth
deriving DecidableEq, Repr

namespace OptionName

/-- The option behind two hyphens. -/
def ofLong? : String → Option OptionName
  | "config" => some .config
  | "source" => some .source
  | "text-source" => some .textSource
  | "target-dir" => some .targetDir
  | "base-font-size" => some .baseFontSize
  | "base-screen-width" => some .baseScreenWidth
  | _ => none

end OptionName

namespace Options

/-- Gives an option that has not been given yet. -/
def give {α : Type} (old : Option α) (value : Option α) : Option (Option α) :=
  if old.isSome then none else value.map some

/-- A path that an option takes; it is not empty. -/
def path? (text : String) : Option Path := if text = "" then none else some ⟨text⟩

/-- **An option with its value.** It must be the first of its name, and the value one that it
takes. -/
def set (options : Options) (name : OptionName) (text : String) : Option Options :=
  match name with
  | .config => (give options.config (path? text)).map ({ options with config := · })
  | .source => (give options.source (path? text)).map ({ options with source := · })
  | .textSource => (give options.textSource (path? text)).map ({ options with textSource := · })
  | .targetDir => (give options.targetDir (path? text)).map ({ options with targetDir := · })
  | .baseFontSize =>
    (give options.baseFontSize (Decimal.read? text.toList)).map
      ({ options with baseFontSize := · })
  | .baseScreenWidth =>
    (give options.baseScreenWidth (Decimal.read? text.toList)).map
      ({ options with baseScreenWidth := · })

/-- **The configuration with the options over it.** -/
def override (options : Options) (config : Config) : Config :=
  { config with
    source := options.source.getD config.source
    textSource := options.textSource.getD config.textSource
    targetDir := options.targetDir.getD config.targetDir
    scale := {
      baseFontSize := options.baseFontSize.getD config.scale.baseFontSize
      baseScreenWidth := options.baseScreenWidth.getD config.scale.baseScreenWidth } }

/-- **The configuration that is used.** It is judged once the options lie over the file. -/
def configIn (options : Options) (store : Store) : Except ConfigError Config := do
  let config := options.override (← Config.loadOrDefault store options.config)
  config.validate
  return config

end Options

/-! ### Reading arguments -/

/-- What one argument is. -/
inductive Argument where
  /-- An option, with its value if that stands in the same argument. -/
  | option (name : OptionName) (value : Option String)
  | inform
  /-- What stands behind it are no options any more. -/
  | separator
  /-- Something that can be the value of an option. -/
  | plain (text : String)
  | unknown
deriving DecidableEq, Repr

namespace Argument

/-- What stands behind two hyphens. -/
def ofLong (cs : List Char) : Argument :=
  let name := String.ofList (cs.takeWhile (· ≠ '='))
  let value := match cs.dropWhile (· ≠ '=') with
    | [] => none
    | _ :: value => some (String.ofList value)
  match OptionName.ofLong? name with
  | some name => .option name value
  | none =>
    if (name = "help" ∨ name = "version") ∧ value = none then .inform else .unknown

/-- What stands behind one hyphen. The value of `-c` may follow directly or behind a sign of
equality. -/
def ofShort : List Char → Argument
  | 'c' :: [] => .option .config none
  | 'c' :: '=' :: value => .option .config (some (String.ofList value))
  | 'c' :: value => .option .config (some (String.ofList value))
  | c :: _ => if c = 'h' ∨ c = 'V' then .inform else .unknown
  | [] => .unknown

/-- What an argument is. -/
def ofText (text : String) : Argument :=
  match text.toList with
  | ['-', '-'] => .separator
  | '-' :: '-' :: cs => ofLong cs
  | ['-'] => .plain text
  | '-' :: cs => ofShort cs
  | _ => .plain text

end Argument

namespace Invocation

/-- Reads arguments from left to right. -/
def read (options : Options) : List Argument → Invocation
  | [] => .build options
  | [.separator] => .build options
  | .inform :: _ => .inform
  | .option name (some text) :: rest =>
    match options.set name text with
    | some options => read options rest
    | none => .misuse
  | .option name none :: .plain text :: rest =>
    match options.set name text with
    | some options => read options rest
    | none => .misuse
  | _ => .misuse

/-- **What the arguments ask for.** -/
def ofArguments (arguments : List String) : Invocation :=
  read {} (arguments.map Argument.ofText)

end Invocation

/-! ### The program -/

/-- How the program ends. -/
inductive ExitStatus where
  | success
  /-- There is no configuration to build with, or a namespace was not built. -/
  | failure
  /-- The arguments are wrong. -/
  | misuse
deriving DecidableEq, Repr

/-- The number of a status. -/
def ExitStatus.code : ExitStatus → Nat
  | .success => 0
  | .failure => 1
  | .misuse => 2

/-- What the program has to say at its end. -/
inductive Verdict where
  | informed
  | misused
  /-- There is no configuration to build with. -/
  | unconfigured (error : ConfigError)
  /-- The namespaces were built, as far as they could be. -/
  | ran (report : Report)

namespace Verdict

/-- **How the program ends.** -/
def status : Verdict → ExitStatus
  | .informed => .success
  | .misused => .misuse
  | .unconfigured _ => .failure
  | .ran report => if report.isSuccess then .success else .failure

/-- The options, as help shows them. -/
def usage : List String :=
  ["Options:", "  -c, --config FILE", "  --source FILE", "  --text-source FILE",
    "  --target-dir DIRECTORY", "  --base-font-size PIXELS", "  --base-screen-width PIXELS",
    "  -h, --help", "  -V, --version"]

/-- What is shown, line by line; `explain` says what is wrong with a malformed configuration. -/
def lines (explain : String → String) : Verdict → List String
  | .informed => usage
  | .misused => usage
  | .unconfigured error => [error.message explain]
  | .ran report => report.failures.map fun p => p.1 ++ ": " ++ p.2.message

end Verdict

namespace CommandLine

variable [Name.Transliteration]

/-- Builds with options; the namespaces take turns as the schedule says. -/
def build (shell : Shell) (schedule : Schedule) (options : Options) (store : Store) :
    Store × Verdict :=
  match options.configIn store with
  | .error error => (store, .unconfigured error)
  | .ok config =>
    let (store, report) := runAlong shell schedule config store
    (store, .ran report)

/-- **The program.** -/
def run (shell : Shell) (schedule : Schedule) (arguments : List String) (store : Store) :
    Store × Verdict :=
  match Invocation.ofArguments arguments with
  | .build options => build shell schedule options store
  | .inform => (store, .informed)
  | .misuse => (store, .misused)

end CommandLine

end TokenSheets
