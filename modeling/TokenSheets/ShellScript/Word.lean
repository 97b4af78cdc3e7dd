/-!
# Words and lexemes of a command line

A script is a sequence of words and operators. Blanks part words, quotes and backslashes take the
meaning from the characters they cover, and a dollar stands for the value of a variable. A text that
breaks off inside a word ends in the lexeme `broken`, so what stands in front of it can still be
run. Of the grammar of `sh` this is the part that short commands are made of.
-/

namespace TokenSheets.ShellScript

/-- A part of a word. -/
inductive Part where
  | bare (text : String)
  | quoted (text : String)
  /-- The value of a variable; without quotes it may make several words or none. -/
  | variable (name : String) (isQuoted : Bool)
deriving DecidableEq, Repr

/-- A word as it is written. -/
abbrev Word := List Part

/-- What a script is made of. -/
inductive Lexeme where
  | word (word : Word)
  /-- An operator or the end of a line. -/
  | operator (text : String)
  /-- The operator of a redirection, with the number of its channel if it has one. -/
  | redirection (channel : Option Nat) (text : String)
  | broken
deriving DecidableEq, Repr

/-- A blank between words. -/
def isBlank (c : Char) : Bool := c = ' ' || c = '\t'

/-- The character ends a word that is not quoted. -/
def endsWord (c : Char) : Bool := isBlank c || c = '\n' || "&|;<>()".toList.contains c

/-- A character of the name of a variable. -/
def isNameChar (c : Char) : Bool := c.isAlphanum || c = '_'

/-- A text that can name a variable. -/
def isName (cs : List Char) : Bool :=
  cs.all isNameChar && (match cs.head? with
    | some c => !c.isDigit
    | none => false)

/-- The text behind a dollar: the name of a variable and what follows it. -/
def dollarName? : List Char → Option (String × List Char)
  | '\x7b' :: rest =>
    let name := rest.takeWhile isNameChar
    match rest.dropWhile isNameChar with
    | '\x7d' :: rest => if name = [] then none else some (String.ofList name, rest)
    | _ => none
  | c :: rest =>
    if c = '?' ∨ c = '#' ∨ c.isDigit then some (c.toString, rest)
    else if isNameChar c then
      some (String.ofList (c :: rest.takeWhile isNameChar), rest.dropWhile isNameChar)
    else none
  | [] => none

/-- A dollar that stands for something that is not known here. -/
def isForeign : List Char → Bool
  | c :: _ => "(\x7b`".toList.contains c
  | [] => false

/-- A character in front of a word, joined with the bare text there. -/
def Word.consBare (c : Char) : Word → Word
  | .bare text :: parts => .bare (c.toString ++ text) :: parts
  | parts => .bare c.toString :: parts

/-- A character in front of a word, joined with the quoted text there. -/
def Word.consQuoted (c : Char) : Word → Word
  | .quoted text :: parts => .quoted (c.toString ++ text) :: parts
  | parts => .quoted c.toString :: parts

/-- A change of the word that was read, if one was. -/
def onWord (change : Word → Word) : Option (Word × List Char) → Option (Word × List Char) :=
  Option.map fun (word, rest) => (change word, rest)

mutual

/-- A word: its parts and what follows it; `fuel` bounds its length. -/
def bareFrom : Nat → List Char → Option (Word × List Char)
  | 0, cs => some ([], cs)
  | _ + 1, [] => some ([], [])
  | fuel + 1, '\\' :: rest =>
    match rest with
    | '\n' :: rest => bareFrom fuel rest
    | c :: rest => onWord (Word.consQuoted c) (bareFrom fuel rest)
    | [] => some ([.bare "\\"], [])
  | fuel + 1, '\'' :: rest =>
    match rest.dropWhile (· ≠ '\'') with
    | _ :: after =>
      onWord (.quoted (String.ofList (rest.takeWhile (· ≠ '\''))) :: ·) (bareFrom fuel after)
    | [] => none
  | fuel + 1, '"' :: rest => onWord (.quoted "" :: ·) (quotedFrom fuel rest)
  | _ + 1, '`' :: _ => none
  | fuel + 1, '$' :: rest =>
    match dollarName? rest with
    | some (name, rest) => onWord (.variable name false :: ·) (bareFrom fuel rest)
    | none => if isForeign rest then none else onWord (Word.consBare '$') (bareFrom fuel rest)
  | fuel + 1, c :: rest =>
    if endsWord c then some ([], c :: rest) else onWord (Word.consBare c) (bareFrom fuel rest)

/-- The rest of a word that goes on inside double quotes. -/
def quotedFrom : Nat → List Char → Option (Word × List Char)
  | 0, _ => none
  | _ + 1, [] => none
  | fuel + 1, '"' :: rest => bareFrom fuel rest
  | fuel + 1, '\\' :: c :: rest =>
    if c = '\n' then quotedFrom fuel rest
    else if "$`\"\\".toList.contains c then onWord (Word.consQuoted c) (quotedFrom fuel rest)
    else onWord (fun word => Word.consQuoted '\\' (Word.consQuoted c word)) (quotedFrom fuel rest)
  | _ + 1, '`' :: _ => none
  | fuel + 1, '$' :: rest =>
    match dollarName? rest with
    | some (name, rest) => onWord (.variable name true :: ·) (quotedFrom fuel rest)
    | none => if isForeign rest then none else onWord (Word.consQuoted '$') (quotedFrom fuel rest)
  | fuel + 1, c :: rest => onWord (Word.consQuoted c) (quotedFrom fuel rest)

end

/-- The operators, a longer one in front of those it begins with. -/
def operators : List String := ["\n", "&&", "||", ";;", ";", "|", "&", "(", ")"]

/-- The operators of redirections, likewise. -/
def redirections : List String := [">>", ">&", ">|", ">", "<<", "<&", "<"]

/-- An operator of a list at the front of a text, and what follows it. -/
def operatorIn? (choices : List String) (cs : List Char) : Option (String × List Char) :=
  (choices.find? fun text => text.toList.isPrefixOf cs).map fun text =>
    (text, cs.drop text.length)

/-- The operator of a redirection at the front of a text, with the number in front of it. -/
def redirection? (cs : List Char) : Option (Lexeme × List Char) :=
  match cs with
  | c :: rest =>
    if c.isDigit then
      (operatorIn? redirections rest).map fun (text, rest) =>
        (.redirection (some (c.toNat - '0'.toNat)) text, rest)
    else (operatorIn? redirections cs).map fun (text, rest) => (.redirection none text, rest)
  | [] => none

/-- The lexemes of a text; `fuel` bounds its length. -/
def lexemesFrom : Nat → List Char → List Lexeme
  | 0, _ => []
  | _ + 1, [] => []
  | fuel + 1, c :: rest =>
    if isBlank c then lexemesFrom fuel rest
    else if c = '#' then lexemesFrom fuel (rest.dropWhile (· ≠ '\n'))
    else
      match redirection? (c :: rest), operatorIn? operators (c :: rest) with
      | some (lexeme, rest), _ => lexeme :: lexemesFrom fuel rest
      | none, some (text, rest) => .operator text :: lexemesFrom fuel rest
      | none, none =>
        match bareFrom (rest.length + 2) (c :: rest) with
        | some ([], rest) => lexemesFrom fuel rest
        | some (word, rest) => .word word :: lexemesFrom fuel rest
        | none => [.broken]

/-- **The lexemes of a script.** -/
def lexemes (script : String) : List Lexeme :=
  let cs := script.toList
  lexemesFrom (cs.length + 1) cs

end TokenSheets.ShellScript
