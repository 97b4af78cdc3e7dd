import TokenSheets.Token.Basic

/-!
# Token trees

Tokens stand in groups, groups in groups. A group may name a type, which its tokens inherit unless
a nearer group or the token itself names one. The order of the children is that of the document.

* `Tree.insert`, `Tree.get?`, `Tree.collect`: children as a map;
* `Tree.namespaces`: the children without the two reserved ones;
* `Tree.flatten`: every token with the keys that lead to it, its type resolved.
-/

namespace TokenSheets

/-- A token or a group of nodes. -/
inductive Node where
  | token (token : Token)
  | group (kind : Option String) (children : List (String × Node))
deriving Inhabited

/-- A document of tokens: a group that has no key. -/
structure Tree where
  /-- The type that tokens inherit. -/
  kind : Option String := none
  children : Entries String Node := []
deriving Inhabited

/-- A token at the keys that lead to it. -/
abbrev Placed := List String × Token

/-- Puts a key in front of the keys that lead to a token. -/
def Placed.under (key : String) (placed : Placed) : Placed := (key :: placed.1, placed.2)

mutual

/-- The tokens of a node, in order, their types resolved; `inherited` is the type of the nearest
group around the node that names one. -/
def Node.flatten (inherited : Option String) : Node → List Placed
  | .token token => [([], (token.inherit inherited).normalized)]
  | .group kind children => flattenChildren (kind.or inherited) children

/-- The tokens of nodes that stand side by side. -/
def flattenChildren (inherited : Option String) : List (String × Node) → List Placed
  | [] => []
  | (key, node) :: rest =>
    (node.flatten inherited).map (Placed.under key) ++ flattenChildren inherited rest

end

namespace Tree

/-- The tree as a node. -/
def toNode (tree : Tree) : Node := .group tree.kind tree.children

/-- The child of a key. -/
def get? (tree : Tree) (key : String) : Option Node := tree.children.get? key

/-- Inserts a child. A child that is there keeps its place and takes the new node. -/
def insert (tree : Tree) (key : String) (node : Node) : Tree :=
  { tree with children := tree.children.insert key node }

/-- The tree that collects children one after another; it names no type. -/
def collect (children : List (String × Node)) : Tree := { children := Entries.ofList children }

/-- Keys of a document that hold no tokens. -/
def reservedKeys : List String := ["$themes", "$metadata"]

/-- **The namespaces** of a document: its children without the reserved ones. -/
def namespaces (tree : Tree) : List (String × Node) :=
  tree.children.filter fun p => p.1 ∉ reservedKeys

/-- **Every token**, in the order of the document, with the keys that lead to it. -/
def flatten (tree : Tree) : List Placed := flattenChildren tree.kind tree.children

@[simp] theorem flatten_toNode (tree : Tree) (inherited : Option String) :
    tree.toNode.flatten inherited = flattenChildren (tree.kind.or inherited) tree.children := by
  simp [toNode, Node.flatten]

end Tree

theorem flattenChildren_eq_flatMap (inherited : Option String) (children : List (String × Node)) :
    flattenChildren inherited children =
      children.flatMap fun p => (p.2.flatten inherited).map (Placed.under p.1) := by
  induction children with
  | nil => simp [flattenChildren]
  | cons p rest ih =>
    obtain ⟨key, node⟩ := p
    simp [flattenChildren, ih]

end TokenSheets
