import TokenSheets.Token.Tree

/-!
# Shared texts

A text document groups texts by page or topic. The groups are there for the writer only: all texts
are merged into one list by name, and the list becomes a group of every namespace. A name that comes
again keeps its place and takes the later token.

* `SharedText.merge`: the texts of a document;
* `SharedText.toTree`: the texts as a group.
-/

namespace TokenSheets

/-- Text tokens by name. -/
structure SharedText where
  tokens : Entries String Token := []

namespace SharedText

/-- A token of a group, its type resolved; a group inside the group gives none. -/
def ofChild? (kind : Option String) : String × Node → Option (String × Token)
  | (name, .token token) => some (name, (token.inherit kind).normalized)
  | (_, .group ..) => none

/-- The tokens that stand directly in a group; a token gives none. -/
def ofNode : Node → List (String × Token)
  | .token _ => []
  | .group kind children => children.filterMap (ofChild? kind)

/-- **The texts of a document.** Only tokens that stand directly in a group of the top level are
texts. -/
def merge (document : Tree) : SharedText :=
  ⟨Entries.ofList (document.namespaces.flatMap fun p => ofNode p.2)⟩

/-- The text of a name. -/
def get? (text : SharedText) (name : String) : Option Token := text.tokens.get? name

/-- The texts as a group that names no type. -/
def toTree (text : SharedText) : Tree :=
  .collect (text.tokens.map fun p => (p.1, .token p.2))

end SharedText

end TokenSheets
