import EventCamera.Glyph

/-! # Quotations

A text in quotation marks, written so that all of it can be seen. -/

namespace EventCamera

namespace Quotation

/-- The letter that stands, behind a backslash, for a character. -/
def letter? : Char → Option Char
  | '"' => some '"'
  | '\\' => some '\\'
  | '\n' => some 'n'
  | '\r' => some 'r'
  | '\t' => some 't'
  | '\x00' => some '0'
  | _ => none

/-- The number of a character, in hexadecimal digits. -/
def numbered (c : Char) : List Char :=
  ['\\', 'u', '\x7b'] ++ Nat.toDigits 16 c.toNat ++ ['\x7d']

/-- What is written for a character. Only a character that has a sign of its own stands for
itself. -/
def escape (c : Char) : List Char :=
  match letter? c with
  | some letter => ['\\', letter]
  | none => if Glyph.isBlank c || Glyph.isMark c then numbered c else [c]

end Quotation

def quoted (text : String) : String :=
  .ofList ('"' :: text.toList.flatMap Quotation.escape ++ ['"'])

end EventCamera
