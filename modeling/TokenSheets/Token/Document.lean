import TokenSheets.Json.Reader
import TokenSheets.Token.Tree

/-!
# Token documents

A document is a JSON object. An object with a value is a token, any other object a group. A string
under `$type` or `type` names the type of the group, the later one of two; all other members whose
key begins with `$`, and all members that are no objects, say nothing about tokens.

A document is read as a whole: one token with a field of the wrong type refuses it.

* `Tree.ofJson`: the tree of a JSON value;
* `Tree.read`: the tree of a text.
-/

namespace TokenSheets

/-- The member names the type of its group. -/
def isKindKey (key : String) : Bool := key = "$type" || key = "type"

/-- The member is about the group itself. -/
def isReserved (key : String) : Bool := key.toList.head? = some '$'

mutual

/-- The node of a JSON value, if it makes one. -/
def Node.ofJson : Json → Except JsonError (Option Node)
  | .object members =>
    if Token.isLeaf members then (Token.ofMembers members).map fun token => some (.token token)
    else do
      let tree ← groupOfMembers members
      return some (.group tree.kind tree.children)
  | _ => .ok none

/-- The type and the children that the members of an object make. -/
def groupOfMembers : List (String × Json) → Except JsonError Tree
  | [] => .ok {}
  | (key, value) :: rest =>
    match value.text? with
    | some kind =>
      (groupOfMembers rest).map fun tree =>
        if isKindKey key then { tree with kind := tree.kind.or (some kind) } else tree
    | none =>
      if isReserved key then groupOfMembers rest
      else do
        let node ← Node.ofJson value
        let tree ← groupOfMembers rest
        match node with
        | some node => return { tree with children := (key, node) :: tree.children }
        | none => return tree

end

namespace Tree

/-- **The tree of a JSON value.** -/
def ofJson : Json → Except JsonError Tree
  | .object members => groupOfMembers members
  | _ => .error .mismatch

/-- The tree of lexemes. A document that begins as something other than an object is refused there,
whatever follows; a token with a field of the wrong type is reported before text that follows the
document. -/
def ofLexemes : List Json.Lexeme → Except JsonError Tree
  | [] => .error .truncated
  | .openList :: _ => .error .mismatch
  | .literal value :: _ => value.bind fun _ => .error .mismatch
  | .string content :: _ => content.bind fun _ => .error .mismatch
  | .openObject :: lexemes => do
    let (value, rest) ← Json.assemble [] .value (.openObject :: lexemes)
    let tree ← ofJson value
    if rest.isEmpty then return tree else throw .malformed
  | _ => .error .malformed

/-- **Reads a document.** -/
def read (text : String) : Except JsonError Tree := ofLexemes (Json.lexemes text.toList)

end Tree

end TokenSheets
