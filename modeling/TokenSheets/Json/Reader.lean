import TokenSheets.Json.Lexeme

/-!
# Reading JSON

The lexemes of a text are put together from the left. What is open at a point is a stack of frames,
each of them a list or an object that waits for one value; `Stage` says what may come next. A key
that comes again keeps its place and takes the new value. At most `maxDepth` lists and objects may
be open at once.

* `assemble`: the first value of a list of lexemes, and the lexemes behind it;
* `read`: the value of a text that holds nothing else.
-/

namespace TokenSheets.Json

/-- How deep lists and objects may be nested. -/
def maxDepth : Nat := 127

/-- A list or an object that waits for a value. -/
inductive Frame where
  /-- A list; its items so far, the last one first. -/
  | item (before : List Json)
  /-- An object; its members so far, and the key of the value. -/
  | member (before : Entries String Json) (key : String)

/-- What may come next. -/
inductive Stage where
  | value
  /-- The first item of a list, or its end. -/
  | firstItem
  /-- A comma or the end of a list; its items, the last one first. -/
  | afterItem (items : List Json)
  /-- The first key of an object, or its end. -/
  | firstKey
  | key (members : Entries String Json)
  | colon (members : Entries String Json) (key : String)
  /-- A comma or the end of an object. -/
  | afterMember (members : Entries String Json)

/-- What a lexeme leads to: the whole value, or more to read. -/
inductive Progress where
  | whole (value : Json)
  | more (stack : List Frame) (stage : Stage)

/-- Hands a value to the frame that waits for it. -/
def deliver (value : Json) : List Frame → Progress
  | [] => .whole value
  | .item before :: stack => .more stack (.afterItem (value :: before))
  | .member before key :: stack => .more stack (.afterMember (before.insert key value))

/-- Opens a list or an object, if the nesting allows it. -/
def openContainer (stack : List Frame) (stage : Stage) : Except JsonError Progress :=
  if stack.length < maxDepth then .ok (.more stack stage) else .error .malformed

/-- A lexeme where a value must begin. -/
def beginValue (stack : List Frame) : Lexeme → Except JsonError Progress
  | .openList => openContainer stack .firstItem
  | .openObject => openContainer stack .firstKey
  | .literal value => value.map fun j => deliver j stack
  | .string content => content.map fun s => deliver (.text s) stack
  | _ => .error .malformed

/-- A lexeme where a key must come. -/
def beginKey (stack : List Frame) (members : Entries String Json) :
    Lexeme → Except JsonError Progress
  | .string content => content.map fun key => .more stack (.colon members key)
  | _ => .error .malformed

/-- One lexeme. -/
def advance (stack : List Frame) (stage : Stage) (lexeme : Lexeme) : Except JsonError Progress :=
  match stage, lexeme with
  | .value, lexeme => beginValue stack lexeme
  | .firstItem, .closeList => .ok (deliver (.list []) stack)
  | .firstItem, lexeme => beginValue (.item [] :: stack) lexeme
  | .afterItem items, .comma => .ok (.more (.item items :: stack) .value)
  | .afterItem items, .closeList => .ok (deliver (.list items.reverse) stack)
  | .afterItem _, _ => .error .malformed
  | .firstKey, .closeObject => .ok (deliver (.object []) stack)
  | .firstKey, lexeme => beginKey stack [] lexeme
  | .key members, lexeme => beginKey stack members lexeme
  | .colon members key, .colon => .ok (.more (.member members key :: stack) .value)
  | .colon _ _, _ => .error .malformed
  | .afterMember members, .comma => .ok (.more stack (.key members))
  | .afterMember members, .closeObject => .ok (deliver (.object members) stack)
  | .afterMember _, _ => .error .malformed

/-- **The first value**, and the lexemes behind it. -/
def assemble (stack : List Frame) (stage : Stage) :
    List Lexeme → Except JsonError (Json × List Lexeme)
  | [] => .error .truncated
  | lexeme :: rest =>
    match advance stack stage lexeme with
    | .error e => .error e
    | .ok (.whole value) => .ok (value, rest)
    | .ok (.more stack stage) => assemble stack stage rest

/-- **Reads a text** that holds one value. -/
def read (text : String) : Except JsonError Json := do
  let (value, rest) ← assemble [] .value (lexemes text.toList)
  if rest.isEmpty then return value else throw .malformed

end TokenSheets.Json
