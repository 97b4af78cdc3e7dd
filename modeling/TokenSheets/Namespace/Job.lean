import TokenSheets.Build.Platform
import TokenSheets.Config.Basic
import TokenSheets.Namespace.Name
import TokenSheets.Token.SharedText

/-!
# Jobs: one namespace to build

A job holds all that its build needs. The tokens of a namespace are those of its group, with the
shared texts as the group `text`. They make one style sheet, and if the settings ask for it a script
and its declarations with the texts.

* `Job.tokens`: the tree that is built;
* `Job.platforms`: the files that are built from it;
* `Job.steps`: cleaning, building and the command behind it.
-/

namespace TokenSheets

/-- A namespace to build. -/
structure Job where
  key : String
  name : String
  buildPath : Path
  settings : Settings
  /-- The group of the namespace. -/
  subtree : Tree
  text : SharedText
  scale : Scale

namespace Job

/-- The key of the shared texts in every namespace. -/
def textKey : String := "text"

/-- The tree of a node; a single token has none. -/
def treeOf : Node → Tree
  | .group kind children => { kind, children }
  | .token _ => {}

/-- **The job of a namespace.** -/
def ofNode (config : Config) (text : SharedText) (key : String) (node : Node) : Job :=
  let name := Namespace.nameOf key
  { key, name
    buildPath := config.targetDir.join name
    settings := config.settings name
    subtree := treeOf node
    text
    scale := config.scale }

/-- The jobs of all namespaces of a document, in its order. -/
def ofDocument (config : Config) (text : SharedText) (document : Tree) : List Job :=
  document.namespaces.map fun p => ofNode config text p.1 p.2

/-- **The tokens of a job**: those of the group, and the shared texts. -/
def tokens (job : Job) : Tree := job.subtree.insert textKey job.text.toTree.toNode

/-- The style sheet of everything but texts. -/
def stylesheet (job : Job) : Platform where
  flavor := .css
  buildPath := job.buildPath
  files := [⟨"variables.css", Format.stylesheet.name, some .nonText⟩]
  scale := job.scale

/-- The texts as a script with its declarations. -/
def script (job : Job) : Platform where
  flavor := .js
  buildPath := job.buildPath
  files := [⟨"tokens.js", Format.script.name, some .text⟩,
    ⟨"tokens.d.ts", Format.declarations.name, some .text⟩]
  scale := job.scale

/-- **The files of a job.** -/
def platforms (job : Job) : Platforms :=
  ("css", job.stylesheet) :: if job.settings.text then [("js", job.script)] else []

/-- **The steps of a job.** -/
def steps [Name.Transliteration] (job : Job) : List Step :=
  cleanSteps job.platforms ++ buildSteps job.platforms job.tokens ++
    job.settings.script.toList.map Step.command

end Job

end TokenSheets
