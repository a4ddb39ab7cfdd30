import ParserGraph.Graph.Node
import ParserGraph.Proofs.Run.Place

/-!
# Parsing expression grammars — the relation a parser is meant to realise

A parsing expression grammar says for each nonterminal, here a parser id,
what it stands for. Its meaning is a big-step relation over a text: a goal
tried at an offset matches up to another offset or fails. The relation knows
neither trees nor names nor errors, and no limit on nesting; what has no
finite derivation neither matches nor fails. A goal has at most one result
(`Derives.det`).
-/

namespace ParserGraph.Peg

/-- What a nonterminal stands for. -/
inductive Form where
  /-- Some of the text ahead, given what is behind, nearest first. -/
  | terminal (takes : List Char → List Char → Nat → Prop)
  /-- All parts one after another. -/
  | sequence (parts : List ParserId)
  /-- The first of the branches that matches. -/
  | choice (branches : List ParserId)
  /-- A part as often as it matches, between two bounds. -/
  | repetition (part : ParserId) (min : Nat) (max : Option Nat)
  /-- A part or nothing. -/
  | optional (part : ParserId)
  /-- Nothing, where a part matches. -/
  | andPredicate (part : ParserId)
  /-- Nothing, where a part fails. -/
  | notPredicate (part : ParserId)
  /-- Whatever a part is. -/
  | same (part : ParserId)
  /-- No text at all. -/
  | never

/-- A grammar: what each nonterminal stands for. -/
abbrev Rules := ParserId → Option Form

/-- What can be tried at an offset. -/
inductive Goal where
  /-- A nonterminal. -/
  | parser (id : ParserId)
  /-- What a nonterminal stands for. -/
  | form (form : Form)
  /-- Nonterminals one after another. -/
  | parts (ids : List ParserId)
  /-- Nonterminals as alternatives. -/
  | branches (ids : List ParserId)
  /-- At least `min` and at most `max` more rounds of a part. -/
  | rounds (part : ParserId) (min : Nat) (max : Option Nat)

/-- **The meaning of a grammar on a text.** A goal at an offset matches up to an offset, or
fails. -/
inductive Derives (P : Rules) (text : List Char) : Goal → Nat → Option Nat → Prop
  /-- A nonterminal is what it stands for. -/
  | parser {id : ParserId} {form : Form} {o : Nat} {r : Option Nat} :
      P id = some form → Derives P text (.form form) o r → Derives P text (.parser id) o r
  /-- A terminal matches what it takes. -/
  | terminal {takes : List Char → List Char → Nat → Prop} {front taken back : List Char} {o : Nat} :
      text = front ++ (taken ++ back) → o = bytes front →
      takes front.reverse (taken ++ back) taken.length →
      Derives P text (.form (.terminal takes)) o (some (o + bytes taken))
  /-- A terminal fails where it takes nothing of any length. -/
  | terminalFails {takes : List Char → List Char → Nat → Prop} {front back : List Char} {o : Nat} :
      text = front ++ back → o = bytes front → (∀ n, ¬ takes front.reverse back n) →
      Derives P text (.form (.terminal takes)) o none
  /-- A sequence is all of its parts. -/
  | sequence {parts : List ParserId} {o : Nat} {r : Option Nat} :
      Derives P text (.parts parts) o r → Derives P text (.form (.sequence parts)) o r
  /-- A choice is one of its branches. -/
  | choice {branches : List ParserId} {o : Nat} {r : Option Nat} :
      Derives P text (.branches branches) o r → Derives P text (.form (.choice branches)) o r
  /-- A repetition is rounds of its part. -/
  | repetition {part : ParserId} {min : Nat} {max : Option Nat} {o : Nat} {r : Option Nat} :
      Derives P text (.rounds part min max) o r →
      Derives P text (.form (.repetition part min max)) o r
  /-- An optional part matches as it does. -/
  | optional {part : ParserId} {o e : Nat} :
      Derives P text (.parser part) o (some e) → Derives P text (.form (.optional part)) o (some e)
  /-- An optional part that fails matches nothing. -/
  | optionalNone {part : ParserId} {o : Nat} :
      Derives P text (.parser part) o none → Derives P text (.form (.optional part)) o (some o)
  /-- A positive predicate takes nothing. -/
  | andPredicate {part : ParserId} {o e : Nat} :
      Derives P text (.parser part) o (some e) →
      Derives P text (.form (.andPredicate part)) o (some o)
  /-- A positive predicate fails as its part does. -/
  | andPredicateFails {part : ParserId} {o : Nat} :
      Derives P text (.parser part) o none → Derives P text (.form (.andPredicate part)) o none
  /-- A negative predicate takes nothing. -/
  | notPredicate {part : ParserId} {o : Nat} :
      Derives P text (.parser part) o none → Derives P text (.form (.notPredicate part)) o (some o)
  /-- A negative predicate fails where its part matches. -/
  | notPredicateFails {part : ParserId} {o e : Nat} :
      Derives P text (.parser part) o (some e) → Derives P text (.form (.notPredicate part)) o none
  /-- A transparent form is its part. -/
  | same {part : ParserId} {o : Nat} {r : Option Nat} :
      Derives P text (.parser part) o r → Derives P text (.form (.same part)) o r
  /-- What never matches fails everywhere. -/
  | never {o : Nat} : Derives P text (.form .never) o none
  /-- No parts match nothing. -/
  | partsNil {o : Nat} : Derives P text (.parts []) o (some o)
  /-- Parts fail with the first that fails. -/
  | partsFail {id : ParserId} {ids : List ParserId} {o : Nat} :
      Derives P text (.parser id) o none → Derives P text (.parts (id :: ids)) o none
  /-- The other parts go on where a part matched up to. -/
  | partsCons {id : ParserId} {ids : List ParserId} {o e : Nat} {r : Option Nat} :
      Derives P text (.parser id) o (some e) → Derives P text (.parts ids) e r →
      Derives P text (.parts (id :: ids)) o r
  /-- Without branches there is no match. -/
  | branchesNil {o : Nat} : Derives P text (.branches []) o none
  /-- The first branch that matches is committed to. -/
  | branchesHere {id : ParserId} {ids : List ParserId} {o e : Nat} :
      Derives P text (.parser id) o (some e) → Derives P text (.branches (id :: ids)) o (some e)
  /-- A branch that fails leaves it to the others. -/
  | branchesLater {id : ParserId} {ids : List ParserId} {o : Nat} {r : Option Nat} :
      Derives P text (.parser id) o none → Derives P text (.branches ids) o r →
      Derives P text (.branches (id :: ids)) o r
  /-- With no round left to allow, none may be missing. -/
  | roundsFull {part : ParserId} {min o : Nat} :
      Derives P text (.rounds part min (some 0)) o (if min = 0 then some o else none)
  /-- With a round that fails, none may be missing. -/
  | roundsEnd {part : ParserId} {min o : Nat} {max : Option Nat} :
      max ≠ some 0 → Derives P text (.parser part) o none →
      Derives P text (.rounds part min max) o (if min = 0 then some o else none)
  /-- An unbounded repetition stops at an empty round, which counts for all that are missing. -/
  | roundsStall {part : ParserId} {min o : Nat} :
      Derives P text (.parser part) o (some o) → Derives P text (.rounds part min none) o (some o)
  /-- Any other round is kept, and the rounds go on behind it. -/
  | roundsAgain {part : ParserId} {min o e : Nat} {max : Option Nat} {r : Option Nat} :
      max ≠ some 0 → Derives P text (.parser part) o (some e) → (max = none → e ≠ o) →
      Derives P text (.rounds part (min - 1) (max.map Nat.pred)) e r →
      Derives P text (.rounds part min max) o r

/-- Terminals that take at most one number of characters at a place. -/
def Rules.Definite (P : Rules) : Prop :=
  ∀ id takes, P id = some (.terminal takes) →
    ∀ behind ahead m n, takes behind ahead m → takes behind ahead n → m = n

/-- A goal all of whose terminals are definite. -/
def Goal.Definite : Goal → Prop
  | .form (.terminal takes) =>
    ∀ behind ahead m n, takes behind ahead m → takes behind ahead n → m = n
  | _ => True

/-- **A goal has at most one result.** -/
theorem Derives.det {P : Rules} (hP : P.Definite) {text : List Char} {goal : Goal} {o : Nat}
    {r r' : Option Nat} (hgoal : goal.Definite) (h : Derives P text goal o r)
    (h' : Derives P text goal o r') : r = r' := by
  -- on the first derivation; the second ends in a rule for the same goal, and where the two rules
  -- differ, their premises are two results of one smaller goal
  induction h generalizing r' with
  | @parser id form o r hid _ ih =>
    cases h' with
    | parser hid' hform' =>
      cases hid.symm.trans hid'
      refine ih ?_ hform'
      cases form with
      | terminal takes => exact hP id takes hid
      | _ => trivial
  | terminal htext ho htakes =>
    cases h' with
    | terminal htext' ho' htakes' =>
      -- the offset says where the text is cut, so the terminal was tried at the same place
      obtain ⟨rfl, hrest⟩ := eq_of_append_of_bytes (htext.symm.trans htext') (ho.symm.trans ho')
      have hlen := hgoal _ _ _ _ htakes (hrest ▸ htakes')
      obtain ⟨rfl, -⟩ := List.append_inj hrest hlen
      rfl
    | terminalFails htext' ho' hnone =>
      obtain ⟨rfl, rfl⟩ := eq_of_append_of_bytes (htext.symm.trans htext') (ho.symm.trans ho')
      exact absurd htakes (hnone _)
  | terminalFails htext ho hnone =>
    cases h' with
    | terminal htext' ho' htakes' =>
      obtain ⟨rfl, rfl⟩ := eq_of_append_of_bytes (htext.symm.trans htext') (ho.symm.trans ho')
      exact absurd htakes' (hnone _)
    | terminalFails _ _ _ => rfl
  | sequence _ ih => cases h' with | sequence h' => exact ih trivial h'
  | choice _ ih => cases h' with | choice h' => exact ih trivial h'
  | repetition _ ih => cases h' with | repetition h' => exact ih trivial h'
  | optional _ ih =>
    cases h' with
    | optional h' => exact ih trivial h'
    | optionalNone h' => cases ih trivial h'
  | optionalNone _ ih =>
    cases h' with
    | optional h' => cases ih trivial h'
    | optionalNone _ => rfl
  | andPredicate _ ih =>
    cases h' with
    | andPredicate _ => rfl
    | andPredicateFails h' => cases ih trivial h'
  | andPredicateFails _ ih =>
    cases h' with
    | andPredicate h' => cases ih trivial h'
    | andPredicateFails _ => rfl
  | notPredicate _ ih =>
    cases h' with
    | notPredicate _ => rfl
    | notPredicateFails h' => cases ih trivial h'
  | notPredicateFails _ ih =>
    cases h' with
    | notPredicate h' => cases ih trivial h'
    | notPredicateFails _ => rfl
  | same _ ih => cases h' with | same h' => exact ih trivial h'
  | never => cases h'; rfl
  | partsNil => cases h'; rfl
  | partsFail _ ih =>
    cases h' with
    | partsFail _ => rfl
    | partsCons h' _ => cases ih trivial h'
  | partsCons _ _ ih ihs =>
    cases h' with
    | partsFail h' => cases ih trivial h'
    | partsCons h' hs' =>
      cases ih trivial h'
      exact ihs trivial hs'
  | branchesNil => cases h'; rfl
  | branchesHere _ ih =>
    cases h' with
    | branchesHere h' => exact ih trivial h'
    | branchesLater h' _ => cases ih trivial h'
  | branchesLater _ _ ih ihs =>
    cases h' with
    | branchesHere h' => cases ih trivial h'
    | branchesLater _ hs' => exact ihs trivial hs'
  | roundsFull =>
    cases h' with
    | roundsFull => rfl
    | roundsEnd hmax _ => exact absurd rfl hmax
    | roundsAgain hmax _ _ _ => exact absurd rfl hmax
  | roundsEnd hmax _ ih =>
    cases h' with
    | roundsFull => exact absurd rfl hmax
    | roundsEnd _ _ => rfl
    | roundsStall h' => cases ih trivial h'
    | roundsAgain _ h' _ _ => cases ih trivial h'
  | roundsStall _ ih =>
    cases h' with
    | roundsEnd _ h' => cases ih trivial h'
    | roundsStall _ => rfl
    | roundsAgain _ h' hne _ =>
      cases ih trivial h'
      exact absurd rfl (hne rfl)
  | roundsAgain hmax _ hne _ ih ihs =>
    cases h' with
    | roundsFull => exact absurd rfl hmax
    | roundsEnd _ h' => cases ih trivial h'
    | roundsStall h' =>
      cases ih trivial h'
      exact absurd rfl (hne rfl)
    | roundsAgain _ h' _ hs' =>
      cases ih trivial h'
      exact ihs trivial hs'

end ParserGraph.Peg
