import ParserGraph.Pattern.Extent
import ParserGraph.Pattern.Regex
import ParserGraph.Text.Utf8

/-!
# Footprint — how much memory the automaton of an expression takes

An expression can be matched by an automaton over the bytes of a text,
forward from the start of a match or backward from its end. The memory for
either is counted without building it: every state takes a fixed amount, and
a state with several ways takes more for each of them. The states of a class
are shared where they lead on alike. An expression fits if neither automaton
takes more than ten mebibytes.
-/

namespace ParserGraph.Pattern

/-- The way an automaton goes through a text. -/
inductive Direction where
  /-- From the start of a match to its end. -/
  | forward
  /-- From the end of a match to its start. -/
  | backward
deriving DecidableEq, Repr

/-! ## Classes -/

/-- How many states can be kept for sharing while a class is entered from its first bytes. -/
def nodePlaces : Nat := 10000

/-- How many states can be kept for sharing while a class is entered from its last bytes. -/
def suffixPlaces : Nat := 1000

/-- The state of a node in the tree that sequences form by their beginnings, given by what may
follow there; a leaf is the target. The states that a node leads to come before it, and nodes that
lead on alike are one state. -/
def nodeState (target : Nat) : Nat → List (List ByteRange) → Sharing → Nat × Sharing
  | 0, _, s => (target, s)
  | depth + 1, node, s =>
    if node.all List.isEmpty then (target, s)
    else
      let groups := node.splitBy fun s t => s.head? = t.head?
      let (arcs, s) := groups.foldl (fun (arcs, s) group =>
        let (next, s) := nodeState target depth (group.map List.tail) s
        let (low, high) := (group.head?.bind List.head?).getD (0, 0)
        ((low, high, next) :: arcs, s)) ([], s)
      let key := arcs.reverse.flatMap fun (low, high, next) => [low, high, next]
      s.state key (.split arcs.length)

/-- The states of a sequence that is gone through from its end, which starts at `stop`. Sequences
that end alike share states. -/
def sequenceStates (stop : Nat) (sequence : List ByteRange) (s : Sharing) : Sharing :=
  (sequence.foldl (fun (stop, s) (low, high) => s.state [stop, low, high] .pass) (stop, s)).2

/-- The states for one character of a set. ASCII takes two states. Otherwise, going forward, the
beginnings of sequences are a tree; going backward, a fork leads to the ends of all sequences. -/
def classGrowth (direction : Direction) (set : CharSet) : Growth := fun e =>
  if set.isAscii then e.pass.split set.ranges.length
  else
    let sequences := set.spellings
    match direction with
    | .forward => (nodeState e.states 4 sequences (.start nodePlaces e.pass)).2.extent
    | .backward =>
      let e := e.fork sequences.length
      (sequences.foldl (fun s sequence => sequenceStates e.states sequence s)
        (.start suffixPlaces e.pass)).extent

/-! ## Words -/

/-- The first bytes of words. -/
def firstBytes (words : List (List UInt8)) : List UInt8 := (words.filterMap List.head?).eraseDups

/-- What follows a first byte in the words that have it. -/
def after (byte : UInt8) (words : List (List UInt8)) : List (List UInt8) :=
  words.filterMap fun
    | first :: rest => if first = byte then some rest else none
    | [] => none

/-- How many times a word ends among words in order; before the first that goes on, only one end
counts. -/
def wordEnds (words : List (List UInt8)) : Nat :=
  let rest := words.dropWhile List.isEmpty
  rest.countP List.isEmpty + if rest.length < words.length then 1 else 0

/-- The states for a choice of words with at most a number of bytes left, in order. Words that go
on and stand side by side share their beginnings; one that ends comes between. -/
def wordsExtent : Nat → List (List UInt8) → Extent
  | 0, _ => .empty
  | depth + 1, words =>
    if words.all List.isEmpty then .empty
    else
      let runs := words.splitBy fun s t => s.isEmpty = t.isEmpty
      let chunks := runs.filter fun run => run.any fun word => !word.isEmpty
      let chunkExtent (e : Extent) (chunk : List (List UInt8)) : Extent :=
        let bytes := firstBytes chunk
        bytes.foldl (fun e byte => e.append (wordsExtent depth (after byte chunk)))
          (if bytes.length = 1 then e.pass else e.split bytes.length)
      chunks.foldl chunkExtent (Extent.empty.fork (chunks.length + wordEnds words))

/-- The bytes of a text in the order they are gone through. -/
def Direction.bytes (direction : Direction) (text : List Char) : List UInt8 :=
  match direction with
  | .forward => bytesOf text
  | .backward => (bytesOf text).reverse

/-! ## Expressions -/

/-- The states for an item several times, given the states for the item; `takes` says that the item
is known to take a character. -/
def repeatedGrowth (item : Growth) (takes : Bool) (min : Nat) (max : Option Nat) : Growth :=
  fun e =>
    match max with
    | none =>
      if 0 < min then (item.times min e).fork 2
      else if takes then item (e.fork 2)
      else (((item e).fork 2).fork 2).pass
    | some max =>
      if min = max then item.times min e
      else if min = 0 && max = 1 then (item (e.fork 2)).pass
      else
        let optional : Growth := fun e => item (e.fork 2)
        optional.times (max - min) (if min = 0 then e.pass else item.times min e).pass

namespace Regex

mutual

/-- The states for an expression. -/
def growth (direction : Direction) : Regex → Growth
  | .empty, e => e.pass
  | .literal text, e => e.text (bytesOf text).length
  | .one _ set, e => classGrowth direction set e
  | .look _, e => e.pass
  | .repeated item min max _, e =>
    repeatedGrowth (growth direction item) (item.minLength.any (0 < ·)) min max e
  | .capture item, e =>
    match direction with
    | .forward => (growth direction item e.pass).pass
    | .backward => growth direction item e
  | .concat items, e => growthAmong direction items e
  | .alternation items, e =>
    match items.mapM text? with
    | some texts =>
      let words := texts.map direction.bytes
      e.pass.append (wordsExtent ((words.map List.length).foldl Max.max 0) words)
    | none => growthOfChoice direction items.length items e

/-- The states for several expressions, in the order they are gone through. -/
def growthAmong (direction : Direction) : List Regex → Growth
  | [], e => e
  | item :: items, e =>
    match direction with
    | .forward => growthAmong direction items (growth direction item e)
    | .backward => growth direction item (growthAmong direction items e)

/-- The states for a choice between several expressions; the fork between all of them and the state
they lead to come after the first two. -/
def growthOfChoice (direction : Direction) (ways : Nat) : List Regex → Growth
  | [], e => e
  | [item], e => growth direction item e
  | first :: second :: items, e =>
    let e := growth direction second (growth direction first e)
    growthInOrder direction items (e.fork ways).pass

/-- The states for several expressions from the first to the last. -/
def growthInOrder (direction : Direction) : List Regex → Growth
  | [], e => e
  | item :: items, e => growthInOrder direction items (growth direction item e)

end

mutual

/-- Whether a match can only begin at an end of the text: at its start going forward, at its end
going backward. -/
def isAnchored (direction : Direction) : Regex → Bool
  | .look condition =>
    match direction with
    | .forward => condition = .textStart
    | .backward => condition = .textEnd
  | .repeated item min _ _ => 0 < min && isAnchored direction item
  | .capture item => isAnchored direction item
  | .concat items => isAnchoredAmong direction items
  | .alternation items => areAnchored direction items
  | _ => false

/-- Whether one of several expressions in order is anchored, nothing being taken before it. -/
def isAnchoredAmong (direction : Direction) : List Regex → Bool
  | [] => false
  | item :: items =>
    match direction with
    | .forward =>
      isAnchored direction item || item.takesNothing && isAnchoredAmong direction items
    | .backward =>
      isAnchoredAmong direction items || takeNothing items && isAnchored direction item

/-- Whether all of several expressions are anchored. -/
def areAnchored (direction : Direction) : List Regex → Bool
  | [] => true
  | item :: items => isAnchored direction item && areAnchored direction items

end

/-- The whole automaton: a loop over any byte looks for a match unless the expression is anchored,
and going forward the match is captured. -/
def automaton (direction : Direction) (r : Regex) : Extent :=
  let start := if r.isAnchored direction then Extent.empty.pass
    else ((Extent.empty.fork 2).pass).split 1
  let whole := match direction with
    | .forward => Regex.capture r
    | .backward => r
  (whole.growth direction start).pass

/-- Whether the automaton is small enough in both directions. -/
def fits (r : Regex) : Bool :=
  (r.automaton .forward).isWithinLimit && (r.automaton .backward).isWithinLimit

end Regex

end ParserGraph.Pattern
