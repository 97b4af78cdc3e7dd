/-!
# Bytes shown as text

Bytes are read as UTF-8. What is no character is shown as `U+FFFD`: one for every longest run of
bytes that begins a character, and one for every other byte.
-/

namespace TokenSheets.Text

/-- A character whose first bytes are read. -/
structure Pending where
  /-- How many bytes must still come. -/
  missing : Nat
  /-- The bits so far. -/
  bits : Nat
  /-- The least and the greatest byte that may come next. -/
  least : Nat
  greatest : Nat

/-- What a byte begins. -/
inductive Lead where
  | char (c : Char)
  | pending (pending : Pending)
  | stray

/-- What a byte begins. The second byte of some characters is limited further, so that every
character has one form. -/
def lead (b : Nat) : Lead :=
  if b < 0x80 then .char (Char.ofNat b)
  else if b < 0xC2 then .stray
  else if b < 0xE0 then .pending ⟨1, b - 0xC0, 0x80, 0xBF⟩
  else if b = 0xE0 then .pending ⟨2, 0, 0xA0, 0xBF⟩
  else if b = 0xED then .pending ⟨2, 0xD, 0x80, 0x9F⟩
  else if b < 0xF0 then .pending ⟨2, b - 0xE0, 0x80, 0xBF⟩
  else if b = 0xF0 then .pending ⟨3, 0, 0x90, 0xBF⟩
  else if b < 0xF4 then .pending ⟨3, b - 0xF0, 0x80, 0xBF⟩
  else if b = 0xF4 then .pending ⟨3, 4, 0x80, 0x8F⟩
  else .stray

/-- What stands for bytes that are no character. -/
def replacement : Char := '\uFFFD'

/-- The characters of bytes. -/
def shown (pending : Option Pending) : List UInt8 → List Char
  | [] => if pending.isSome then [replacement] else []
  | byte :: rest =>
    let b := byte.toNat
    let begin (front : List Char) : List Char :=
      match lead b with
      | .char c => front ++ c :: shown none rest
      | .pending p => front ++ shown (some p) rest
      | .stray => front ++ replacement :: shown none rest
    match pending with
    | none => begin []
    | some p =>
      if p.least ≤ b ∧ b ≤ p.greatest then
        let bits := p.bits * 0x40 + (b - 0x80)
        if p.missing = 1 then Char.ofNat bits :: shown none rest
        else shown (some ⟨p.missing - 1, bits, 0x80, 0xBF⟩) rest
      else begin [replacement]

/-- **Bytes as text.** -/
def ofBytes (content : ByteArray) : String :=
  match String.fromUTF8? content with
  | some text => text
  | none => String.ofList (shown none content.toList)

end TokenSheets.Text
