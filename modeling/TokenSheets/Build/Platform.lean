import TokenSheets.Build.Step
import TokenSheets.Sheet.Format

/-!
# Platforms: which files are built where

A platform is a directory of files that show one dictionary. Building writes its files once all of
them are rendered; cleaning removes them, and the directory if nothing else is in it.

* `Platform.outputs`: the texts of the files;
* `buildSteps` and `cleanSteps`: the steps of several platforms, in order.
-/

namespace TokenSheets

/-- A file of a platform. -/
structure FileSpec where
  destination : String
  /-- The name of a format. -/
  format : String
  filter : Option TokenFilter := none
deriving DecidableEq, Repr

/-- Files that show one dictionary. -/
structure Platform where
  flavor : Flavor
  buildPath : Path
  files : List FileSpec
  scale : Scale

namespace Platform

/-- Where a file is written. -/
def pathOf (platform : Platform) (file : FileSpec) : Path :=
  platform.buildPath.join file.destination

/-- The text of a file. -/
def textOf (platform : Platform) (dictionary : Dictionary) (file : FileSpec) :
    Except SheetError String := do
  let format ← Format.ofName file.format
  format.render platform.scale (dictionary.filtered file.filter)

section

variable [Name.Transliteration]

/-- **The texts of all files** with the paths where they are written. -/
def outputs (platform : Platform) (tree : Tree) : Except SheetError (List (Path × String)) :=
  let dictionary := Dictionary.ofTree platform.flavor tree
  platform.files.mapM fun file => do
    return (platform.pathOf file, ← platform.textOf dictionary file)

/-- The steps that write the files. Nothing is done if one of them cannot be rendered. -/
def buildSteps (platform : Platform) (tree : Tree) : List Step :=
  match platform.outputs tree with
  | .error error => [.refuse error]
  | .ok outputs =>
    .makeDirectories platform.buildPath :: outputs.map fun output => .writeFile output.1 output.2

end

/-- The steps that remove the files, and the directory once it is empty. -/
def cleanSteps (platform : Platform) : List Step :=
  platform.files.map (fun file => .removeFile (platform.pathOf file)) ++
    [.listDirectory platform.buildPath, .removeListed platform.buildPath]

end Platform

/-- Platforms by name, in order. -/
abbrev Platforms := Entries String Platform

/-- **The steps that build platforms.** -/
def buildSteps [Name.Transliteration] (platforms : Platforms) (tree : Tree) : List Step :=
  platforms.flatMap fun p => p.2.buildSteps tree

/-- **The steps that clean platforms.** -/
def cleanSteps (platforms : Platforms) : List Step := platforms.flatMap fun p => p.2.cleanSteps

end TokenSheets
