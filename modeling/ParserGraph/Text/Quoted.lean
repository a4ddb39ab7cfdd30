import ParserGraph.Text.Property.Extender
import ParserGraph.Text.Property.Unprintable

/-!
# Quoted text — showing characters so that they can be told apart

Reports quote the text they talk about. Quotes, backslashes and the usual
controls are written with a backslash, what cannot be shown is written as its
code point, and a mark that would be drawn onto the quote before it is
written as its code point too.
-/

namespace ParserGraph.Quoted

/-- A code point as `\u{…}`, in lower-case hexadecimal without padding. -/
def codePoint (c : Char) : List Char :=
  '\\' :: 'u' :: '\x7b' :: Nat.toDigits 16 c.toNat ++ ['\x7d']

/-- One character in quotes; `leading` says that it stands right after the opening quote. -/
def escapeChar (leading : Bool) (c : Char) : List Char :=
  match c with
  | '\x00' => ['\\', '0']
  | '\t' => ['\\', 't']
  | '\r' => ['\\', 'r']
  | '\n' => ['\\', 'n']
  | '\\' => ['\\', '\\']
  | '"' => ['\\', '"']
  | '\'' => ['\\', '\'']
  | c =>
    if leading && CharSet.extender.contains c then codePoint c
    else if CharSet.unprintable.contains c then codePoint c
    else [c]

/-- All of a text in quotes; only its first character can join the opening quote. -/
def escape : List Char → List Char
  | [] => []
  | c :: text => escapeChar true c ++ text.flatMap (escapeChar false)

/-- A single character as it is quoted. -/
def ofChar (c : Char) : String := String.ofList (escapeChar true c)

/-- A text as it is quoted. -/
def ofString (s : String) : String := String.ofList (escape s.toList)

end ParserGraph.Quoted
