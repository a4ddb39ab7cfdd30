import ParserGraph.Run.Terminal

/-!
# What terminals take — as a relation on the text around a place

Each terminal has one rule for what lies behind a place, nearest first, and
what lies ahead. The engine computes exactly this relation
(`Terminal.span_eq_some_iff`), and no terminal takes more than is ahead
(`Terminal.span_le`). How a regular expression matches is left to
`Pattern.match?`, of which only the latter is used.
-/

namespace ParserGraph

namespace Pattern

/-- The search for a match ends on the end it had, or on one within the text it was given. -/
theorem Program.search_le {p : Program} {threads : List Nat} {count n : Nat} {best : Option Nat}
    {ahead : List Char} (h : p.search threads count best ahead = some n) :
    best = some n ∨ n ≤ count + ahead.length := by
  induction ahead generalizing threads count best with
  | nil =>
    rw [search] at h
    split at h
    · exact Or.inr (Nat.le_of_eq (Option.some.inj h).symm)
    · exact Or.inl h
  | cons c ahead ih =>
    -- the end found so far is the one it had, or lies right here
    have hbest : ∀ ended : Bool, (if ended then some count else best) = some n →
        best = some n ∨ n ≤ count + (c :: ahead).length := by
      intro ended he
      cases ended with
      | false => exact Or.inl he
      | true => exact Or.inr (Option.some.inj he ▸ Nat.le_add_right _ _)
    rw [search] at h
    dsimp only at h
    split at h
    · exact hbest _ h
    · rcases ih h with he | hle
      · exact hbest _ he
      · refine Or.inr ?_
        rw [List.length_cons]
        omega

/-- A pattern takes no more than is ahead. -/
theorem match?_le {p : Pattern} {behind ahead : List Char} {n : Nat}
    (h : p.match? behind ahead = some n) : n ≤ ahead.length := by
  rcases Program.search_le h with hnone | hle
  · exact nomatch hnone
  · omega

end Pattern

/-- How many characters a terminal takes between what is behind and what is ahead. -/
inductive Terminal.Takes : Terminal → List Char → List Char → Nat → Prop
  | any {behind ahead : List Char} {c : Char} : Takes .any behind (c :: ahead) 1
  | char {behind ahead : List Char} {c : Char} : Takes (.char c) behind (c :: ahead) 1
  | range {behind ahead : List Char} {low high c : Char} :
      low ≤ c → c ≤ high → Takes (.range low high) behind (c :: ahead) 1
  | oneOf {behind ahead : List Char} {set : String} {c : Char} :
      c ∈ set.toList → Takes (.oneOf set) behind (c :: ahead) 1
  | noneOf {behind ahead : List Char} {set : String} {c : Char} :
      c ∉ set.toList → Takes (.noneOf set) behind (c :: ahead) 1
  | literal {behind ahead : List Char} {text : String} :
      Takes (.literal text) behind (text.toList ++ ahead) text.toList.length
  | satisfy {behind ahead : List Char} {description : String} {accepts : Char → Bool} {c : Char} :
      accepts c → Takes (.satisfy description accepts) behind (c :: ahead) 1
  | pattern {behind ahead : List Char} {p : Pattern} {n : Nat} :
      p.match? behind ahead = some n → Takes (.pattern p) behind ahead n
  | startOfInput {ahead : List Char} : Takes .startOfInput [] ahead 0
  | endOfInput {behind : List Char} : Takes .endOfInput behind [] 0
  | pass {behind ahead : List Char} : Takes .pass behind ahead 0

/-- One character is taken where there is one that is accepted. -/
theorem Cursor.one_eq_some_iff {cursor : Cursor} {accepts : Char → Bool} {n : Nat} :
    cursor.one accepts = some n ↔
      n = 1 ∧ ∃ c ahead, cursor.ahead = c :: ahead ∧ accepts c = true := by
  rw [one, peek]
  cases cursor.ahead with
  | nil => simp
  | cons c ahead =>
    rw [List.head?_cons, Option.any_some]
    constructor
    · intro h
      split at h
      · next hc => exact ⟨(Option.some.inj h).symm, c, ahead, rfl, hc⟩
      · exact nomatch h
    · rintro ⟨rfl, c', ahead', he, hc⟩
      cases he
      exact if_pos hc

namespace Terminal

/-- **The engine computes what terminals take.** -/
theorem span_eq_some_iff {t : Terminal} {cursor : Cursor} {n : Nat} :
    t.span cursor = some n ↔ t.Takes cursor.behind cursor.ahead n := by
  obtain ⟨behind, text, position⟩ := cursor
  constructor
  · intro h
    cases t with
    | any =>
      obtain ⟨rfl, c, ahead, rfl, -⟩ := Cursor.one_eq_some_iff.1 h
      exact .any
    | char x =>
      obtain ⟨rfl, c, ahead, rfl, hc⟩ := Cursor.one_eq_some_iff.1 h
      rw [beq_iff_eq] at hc
      subst hc
      exact .char
    | range low high =>
      obtain ⟨rfl, c, ahead, rfl, hc⟩ := Cursor.one_eq_some_iff.1 h
      rw [Bool.and_eq_true, decide_eq_true_eq, decide_eq_true_eq] at hc
      exact .range hc.1 hc.2
    | oneOf set =>
      obtain ⟨rfl, c, ahead, rfl, hc⟩ := Cursor.one_eq_some_iff.1 h
      exact .oneOf (by simpa using hc)
    | noneOf set =>
      obtain ⟨rfl, c, ahead, rfl, hc⟩ := Cursor.one_eq_some_iff.1 h
      exact .noneOf (by simpa using hc)
    | literal word =>
      rw [span] at h
      split at h
      · next hprefix =>
        obtain ⟨ahead, rfl⟩ := List.isPrefixOf_iff_prefix.1 hprefix
        cases h
        exact .literal
      · exact nomatch h
    | satisfy description accepts =>
      obtain ⟨rfl, c, ahead, rfl, hc⟩ := Cursor.one_eq_some_iff.1 h
      exact .satisfy hc
    | pattern p => exact .pattern h
    | startOfInput =>
      rw [span] at h
      split at h
      · next hstart =>
        cases List.isEmpty_iff.1 hstart
        cases h
        exact .startOfInput
      · exact nomatch h
    | endOfInput =>
      rw [span] at h
      split at h
      · next hstop =>
        cases List.isEmpty_iff.1 hstop
        cases h
        exact .endOfInput
      · exact nomatch h
    | pass => cases h; exact .pass
    | fail message => exact nomatch h
  · intro h
    dsimp only at h
    cases h with
    | any => rfl
    | char => exact Cursor.one_eq_some_iff.2 ⟨rfl, _, _, rfl, beq_self_eq_true _⟩
    | range hlow hhigh => exact Cursor.one_eq_some_iff.2 ⟨rfl, _, _, rfl, by simp [hlow, hhigh]⟩
    | oneOf hc => exact Cursor.one_eq_some_iff.2 ⟨rfl, _, _, rfl, by simpa using hc⟩
    | noneOf hc => exact Cursor.one_eq_some_iff.2 ⟨rfl, _, _, rfl, by simpa using hc⟩
    | @literal _ ahead word =>
      exact if_pos (List.isPrefixOf_iff_prefix.2 (List.prefix_append word.toList ahead))
    | satisfy hc => exact Cursor.one_eq_some_iff.2 ⟨rfl, _, _, rfl, hc⟩
    | pattern hp => exact hp
    | startOfInput => rfl
    | endOfInput => rfl
    | pass => rfl

/-- A terminal takes at most one number of characters at a place. -/
theorem Takes.det {t : Terminal} {behind ahead : List Char} {m n : Nat}
    (hm : t.Takes behind ahead m) (hn : t.Takes behind ahead n) : m = n := by
  have hspan : t.span ⟨behind, ahead, .start⟩ = some m := span_eq_some_iff.2 hm
  exact Option.some.inj (hspan.symm.trans (span_eq_some_iff.2 hn))

/-- A terminal takes no more than is ahead. -/
theorem span_le {t : Terminal} {cursor : Cursor} {n : Nat} (h : t.span cursor = some n) :
    n ≤ cursor.ahead.length := by
  have htakes := span_eq_some_iff.1 h
  generalize cursor.ahead = ahead at htakes
  generalize cursor.behind = behind at htakes
  cases htakes with
  | @literal _ _ word =>
    rw [List.length_append]
    exact Nat.le_add_right _ _
  | pattern hp => exact Pattern.match?_le hp
  | startOfInput => exact Nat.zero_le _
  | endOfInput => exact Nat.zero_le _
  | pass => exact Nat.zero_le _
  | _ => exact Nat.succ_le_succ (Nat.zero_le _)

end Terminal

end ParserGraph
