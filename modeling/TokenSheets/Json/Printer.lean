import TokenSheets.Decimal.Layout
import TokenSheets.Json.Basic

/-!
# Writing JSON

Compact text: no blanks, members in order. A string escapes the quote, the backslash and the control
characters; a double is written with the fewest digits that read back, and as `null` where it is no
number.

* `stringChars`: a string with its quotes;
* `chars`: the characters of a value, and `render` the same as a string.
-/

namespace TokenSheets.Json

open Decimal

/-- **Numbers in documents**: positional from `10 ^ (-5)` to below `10 ^ 16`, a whole number shows a
fraction, a tie goes to the even neighbour. -/
def documentLayout : Layout where
  positional e := -5 ≤ e && e ≤ 15
  wholeFraction := true
  tie := .toEven
  infinity := "null"
  notANumber := "null"

/-- The characters of a double; one that is not finite is `null`. -/
def doubleChars (x : Float) : List Char :=
  match (Double.classify x).magnitude with
  | .finite _ => documentLayout.write x
  | _ => ['n', 'u', 'l', 'l']

/-- The characters of a whole number. -/
def wholeChars (n : Int) : List Char :=
  if n < 0 then '-' :: Nat.toDigits 10 n.natAbs else Nat.toDigits 10 n.natAbs

/-- A hexadecimal digit in lower case. -/
def hexDigit (n : Nat) : Char := Nat.digitChar (n % 16)

/-- One character inside a string. -/
def escapeChar (c : Char) : List Char :=
  if c = '"' then ['\\', '"']
  else if c = '\\' then ['\\', '\\']
  else if c = '\x08' then ['\\', 'b']
  else if c = '\x0c' then ['\\', 'f']
  else if c = '\n' then ['\\', 'n']
  else if c = '\r' then ['\\', 'r']
  else if c = '\t' then ['\\', 't']
  else if c.toNat < 0x20 then ['\\', 'u', '0', '0', hexDigit (c.toNat / 16), hexDigit c.toNat]
  else [c]

/-- A string with its quotes. -/
def stringChars (s : String) : List Char := '"' :: (s.toList.flatMap escapeChar ++ ['"'])

mutual

/-- The characters of a value. -/
def chars : Json → List Char
  | .null => ['n', 'u', 'l', 'l']
  | .bool true => ['t', 'r', 'u', 'e']
  | .bool false => ['f', 'a', 'l', 's', 'e']
  | .whole n => wholeChars n
  | .double x => doubleChars x
  | .text s => stringChars s
  | .list items => '[' :: (itemChars items ++ [']'])
  | .object members => '\x7b' :: (memberChars members ++ ['\x7d'])

/-- The items of a list, with commas between them. -/
def itemChars : List Json → List Char
  | [] => []
  | [j] => chars j
  | j :: rest => chars j ++ ',' :: itemChars rest

/-- The members of an object, with commas between them. -/
def memberChars : List (String × Json) → List Char
  | [] => []
  | [(k, j)] => stringChars k ++ ':' :: chars j
  | (k, j) :: rest => stringChars k ++ ':' :: (chars j ++ ',' :: memberChars rest)

end

/-- **The text of a value.** -/
def render (j : Json) : String := String.ofList j.chars

end TokenSheets.Json
