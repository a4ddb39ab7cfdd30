/-!
# Positions — where in a text something happened

A position counts the bytes before it and names the line and the column a
reader would point at. Bytes are those of the UTF-8 encoding; lines and
columns start at one and count characters.
-/

namespace ParserGraph

/-- A place in a text: bytes before it, line, and column in characters. -/
@[ext]
structure Position where
  /-- Bytes before this place. -/
  offset : Nat
  /-- Line, the first being 1. -/
  line : Nat
  /-- Column in characters, the first being 1. -/
  column : Nat
deriving DecidableEq, Repr, Inhabited

namespace Position

/-- The place before the first character of any text. -/
def start : Position := ⟨0, 1, 1⟩

/-- The place just after `c`: a newline opens a line, anything else a column. -/
def advance (p : Position) (c : Char) : Position :=
  if c = '\n' then ⟨p.offset + c.utf8Size, p.line + 1, 1⟩
  else ⟨p.offset + c.utf8Size, p.line, p.column + 1⟩

/-- The place after all of `text`. -/
def after (p : Position) (text : List Char) : Position :=
  text.foldl advance p

/-- The places met while reading `text`: the first one and one after each character. -/
def trail (p : Position) : List Char → List Position
  | [] => [p]
  | c :: text => p :: trail (p.advance c) text

/-- Positions are ordered by offset, then line, then column. -/
protected def compare (p q : Position) : Ordering :=
  (Ord.compare p.offset q.offset).then
    ((Ord.compare p.line q.line).then (Ord.compare p.column q.column))

instance : Ord Position := ⟨Position.compare⟩

/-- A position as a reader is told it: `line:column`. -/
def text (p : Position) : String :=
  toString p.line ++ ":" ++ toString p.column

/-! ## How reading moves a position -/

@[simp]
theorem after_nil (p : Position) : p.after [] = p := rfl

@[simp]
theorem after_cons (p : Position) (c : Char) (text : List Char) :
    p.after (c :: text) = (p.advance c).after text := rfl

theorem after_append (p : Position) (front back : List Char) :
    p.after (front ++ back) = (p.after front).after back := by
  simp [after, List.foldl_append]

theorem advance_offset (p : Position) (c : Char) :
    (p.advance c).offset = p.offset + c.utf8Size := by
  unfold advance; split <;> rfl

end Position

end ParserGraph
