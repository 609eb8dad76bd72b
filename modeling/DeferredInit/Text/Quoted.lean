import DeferredInit.Text.Shapeless

/-!
# Quoted text

A text is quoted by putting it between double quotes and escaping whatever could be mistaken there: the quote
and the backslash, the controls that have a letter of their own, and, by its code point, every character
without a shape (`isShapeless`).  A single quote needs no escape.
-/

namespace DeferredInit.Quoted

/-- A code point in hexadecimal, between braces. -/
def escapeCodePoint (c : Char) : List Char :=
  ['\\', 'u', '\x7b'] ++ Nat.toDigits 16 c.toNat ++ ['\x7d']

/-- How one character is written between quotes. -/
def escape (c : Char) : List Char :=
  match c with
  | '\x00' => ['\\', '0']
  | '\t' => ['\\', 't']
  | '\r' => ['\\', 'r']
  | '\n' => ['\\', 'n']
  | '"' => ['\\', '"']
  | '\\' => ['\\', '\\']
  | c => if isShapeless c then escapeCodePoint c else [c]

/-- **A text between quotes.** -/
def encode (s : String) : String :=
  String.ofList ('"' :: s.toList.flatMap escape ++ ['"'])

end DeferredInit.Quoted
