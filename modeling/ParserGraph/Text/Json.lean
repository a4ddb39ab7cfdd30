/-!
# JSON — compact objects and arrays in a fixed field order

A value is written without blanks, fields in the order given. Strings go by
chunks of sixteen bytes or a little more: a chunk of sixteen plain ASCII
characters is copied, in any other chunk each character is escaped where it
has to be. Delete is plain, so it is copied in the one and escaped in the
other.
-/

namespace ParserGraph

/-- A JSON value; an object keeps its fields in order. -/
inductive Json where
  /-- The absent value. -/
  | null
  /-- A natural number. -/
  | number (n : Nat)
  /-- A string. -/
  | string (s : String)
  /-- A list of values. -/
  | array (items : List Json)
  /-- Named values in a fixed order. -/
  | object (fields : List (String × Json))
deriving Inhabited

namespace Json

/-- A character that a chunk may copy: ASCII, no control below the space, no quote, no backslash. -/
def isPlain (c : Char) : Bool :=
  0x20 ≤ c.toNat && c.toNat < 0x80 && c != '"' && c != '\\'

/-- Whether `n` plain characters come next. -/
def plainAhead : Nat → List Char → Bool
  | 0, _ => true
  | _ + 1, [] => false
  | n + 1, c :: text => isPlain c && plainAhead n text

/-- A control character as `\u00xx`, in lower-case hexadecimal. -/
def escapeControl (c : Char) : List Char :=
  ['\\', 'u', '0', '0', Nat.digitChar (c.toNat / 16), Nat.digitChar (c.toNat % 16)]

/-- One character of a string, escaped where it has to be. -/
def escapeChar (c : Char) : List Char :=
  match c with
  | '"' => ['\\', '"']
  | '\\' => ['\\', '\\']
  | '\n' => ['\\', 'n']
  | '\r' => ['\\', 'r']
  | '\t' => ['\\', 't']
  | '\x08' => ['\\', 'b']
  | '\x0c' => ['\\', 'f']
  | c => if c.toNat < 0x20 || c.toNat = 0x7F then escapeControl c else [c]

/-- Bytes a chunk covers at least. -/
def chunkSize : Nat := 16

/-- A text with `left` more bytes to go in a chunk that is copied or escaped. -/
def escapeFrom (copied : Bool) (left : Nat) : List Char → List Char
  | [] => []
  | c :: text =>
    let fresh := left = 0
    let copied := if fresh then plainAhead chunkSize (c :: text) else copied
    let left := if fresh then chunkSize else left
    (if copied then [c] else escapeChar c) ++ escapeFrom copied (left - c.utf8Size) text

/-- A string between its quotes. -/
def quote (s : String) : String :=
  String.ofList ('"' :: escapeFrom false 0 s.toList ++ ['"'])

mutual

/-- The text of a value. -/
def text : Json → String
  | null => "null"
  | number n => toString n
  | string s => quote s
  | array items => "[" ++ ",".intercalate (itemTexts items) ++ "]"
  | object fields => "\x7b" ++ ",".intercalate (fieldTexts fields) ++ "\x7d"

/-- The texts of the values of an array. -/
def itemTexts : List Json → List String
  | [] => []
  | item :: items => text item :: itemTexts items

/-- The texts of the fields of an object. -/
def fieldTexts : List (String × Json) → List String
  | [] => []
  | (name, value) :: fields => (quote name ++ ":" ++ text value) :: fieldTexts fields

end

end Json

end ParserGraph
