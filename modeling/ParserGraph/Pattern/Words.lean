import ParserGraph.Pattern.Beginning

/-!
# Words — expressions that match a few fixed texts

Where all beginnings of an expression are whole, its matches are just these
texts, its words, and it is matched by looking for them, however large its
automaton would be. Beginnings that are known are made fewer and shorter first
if that makes them better to look for: a rare first byte or a long common
beginning alone is enough to find a place. The words are lost by that, and the
automaton is needed.
-/

namespace ParserGraph.Pattern

namespace Beginning

/-- Beginnings without those that begin with one before them, which is always preferred. -/
def preferred (bs : List Beginning) : List Beginning :=
  bs.foldl (fun kept b =>
    if kept.any fun b' => b'.bytes.isPrefixOf b.bytes then kept else kept ++ [b]) []

/-- The bytes that two texts begin with. -/
def sharedBytes : List UInt8 → List UInt8 → List UInt8
  | b :: bs, b' :: bs' => if b = b' then b :: sharedBytes bs bs' else []
  | _, _ => []

/-- The bytes that all beginnings begin with. -/
def commonBytes : List Beginning → List UInt8
  | [] => []
  | b :: bs => bs.foldl (fun bytes b => sharedBytes bytes b.bytes) b.bytes

/-- The ASCII characters that are frequent in texts of all kinds. -/
def frequentChars : List Char := "\n\r (),-./0129:_abcdefghilmnoprstuvxy|".toList

/-- Whether a character begins with this byte that is frequent in texts; all past ASCII are. -/
def isFrequent (byte : UInt8) : Bool :=
  0xC0 ≤ byte || frequentChars.any fun c => c.toNat = byte.toNat

/-- All beginnings cut to a number of bytes. -/
def cutAll (n : Nat) (bs : List Beginning) : List Beginning := bs.map (cut n)

/-- How beginnings are made fewer: the bytes they are cut to, and how many of them need no cut. -/
def attempts : List (Nat × Nat) := [(5, 10), (4, 10), (3, 64), (2, 64), (1, 10)]

/-- Beginnings after as many attempts to have fewer as it takes. -/
def fewer (bs : List Beginning) : List (Nat × Nat) → List Beginning
  | [] => bs
  | (bytes, enough) :: rest =>
    if bs.length ≤ enough then bs else fewer (preferred (cutAll bytes bs)) rest

/-- The bytes of beginnings if all are whole. -/
def wholeBytes? (bs : List Beginning) : Option (List (List UInt8)) :=
  if bs.all Beginning.whole then some (bs.map Beginning.bytes) else none

/-- The words that known beginnings stand for, if these are not made into less. -/
def words? (bs : List Beginning) : Option (List (List UInt8)) :=
  let bs := merged bs
  if bs.isEmpty || bs.any fun b => b.bytes.isEmpty then none
  else
    let kept := preferred bs
    let common := commonBytes kept
    let isRare := common.length ≤ 3 && common.head?.any fun byte => !isFrequent byte
    if 1 < bs.length && isRare then wholeBytes? (merged (cutAll 1 kept))
    else
      let areFew := kept.all Beginning.whole && kept.length ≤ 16
      let isTelling := 4 < common.length || 1 < common.length && !areFew
      let kept := if isTelling then merged (cutAll common.length kept) else kept
      let short := fewer kept attempts
      if short.any (fun b => b.bytes.length ≤ 2) || 64 < short.length then wholeBytes? kept
      else if kept.all Beginning.whole then wholeBytes? short
      else none

end Beginning

namespace Regex

mutual

/-- Whether an expression has neither captured groups nor conditions. -/
def isPlain : Regex → Bool
  | .empty => true
  | .literal _ => true
  | .one _ _ => true
  | .look _ => false
  | .repeated item _ _ _ => isPlain item
  | .capture _ => false
  | .concat items => arePlain items
  | .alternation items => arePlain items

/-- Whether none of several expressions has captured groups or conditions. -/
def arePlain : List Regex → Bool
  | [] => true
  | item :: items => isPlain item && arePlain items

end

/-- How many texts to choose from are looked for in any case. -/
def manyWords : Nat := 3000

/-- The choice between words, preferred ones first. -/
def ofWords? (words : List (List UInt8)) : Option Regex := do
  let texts ← words.mapM fun word => ByteArray.utf8Decode? ⟨word.toArray⟩
  match texts.map Array.toList with
  | [only] => some (.literal only)
  | texts => some (.alternation (texts.map .literal))

/-- An expression for the same matches that is a choice between words, if it is known to be one. -/
def asWords? (r : Regex) : Option Regex :=
  let isChoiceOfMany := match r with
    | .alternation items => manyWords ≤ items.length && items.all fun item => item.text?.isSome
    | _ => false
  if isChoiceOfMany then some r
  else if r.isPlain then r.beginnings.bind Beginning.words? |>.bind ofWords?
  else none

end Regex

end ParserGraph.Pattern
