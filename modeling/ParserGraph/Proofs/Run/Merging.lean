import ParserGraph.Proofs.Run.GivenUp

/-!
# Merging errors — the furthest first, whatever the brackets

Alternatives merge their errors as they go, an error kept aside is merged with
the next one, and at the end of a run what was kept aside is merged with what
the root failed with. All of these are brackets around one list of errors.
Errors are pooled where they stand furthest (`ParseError.standingAt`):
`Merged` says what a list of them comes to, and it is made so that it follows
a list that is cut in two (`Merged.append`).
-/

namespace ParserGraph

namespace ParseError

/-- The errors that stand at an offset, in order. -/
def standingAt (offset : Nat) (errors : List ParseError) : List ParseError :=
  errors.filter (·.position.offset = offset)

section StandingAt

variable {offset : Nat} {e f : ParseError} {errors back : List ParseError}

theorem mem_standingAt :
    f ∈ standingAt offset errors ↔ f ∈ errors ∧ f.position.offset = offset := by
  simp [standingAt]

theorem standingAt_append :
    standingAt offset (errors ++ back) = standingAt offset errors ++ standingAt offset back :=
  List.filter_append _ _

theorem standingAt_singleton : standingAt e.position.offset [e] = [e] := by simp [standingAt]

/-- None stands beyond the furthest. -/
theorem standingAt_eq_nil (h : ∀ f ∈ errors, f.position.offset < offset) :
    standingAt offset errors = [] :=
  List.filter_eq_nil_iff.2 fun f hf => by simpa using Nat.ne_of_lt (h f hf)

end StandingAt

/-! ## What a list of errors comes to -/

/-- An error is what a list of errors comes to: it stands where the furthest of them do, it has the
place and the character of the first of these, what any of these expected, and the message of the
first of these that has one. -/
structure Merged (errors : List ParseError) (e : ParseError) : Prop where
  /-- None of the errors is further. -/
  furthest : ∀ f ∈ errors, f.position.offset ≤ e.position.offset
  /-- It is told like the first of the furthest errors. -/
  told : ∃ first, (standingAt e.position.offset errors).head? = some first ∧
    e.position = first.position ∧ e.found = first.found
  /-- It expects what the furthest errors expected, and nothing else. -/
  expected : ∀ item, item ∈ e.expected ↔
    ∃ f ∈ standingAt e.position.offset errors, item ∈ f.expected
  /-- It has the first message of the furthest errors. -/
  failure : e.failure = (standingAt e.position.offset errors).findSome? (·.failure)

namespace Merged

variable {e f e' : ParseError} {errors back errors' : List ParseError}

theorem singleton (e : ParseError) : Merged [e] e where
  furthest f hf := Nat.le_of_eq (congrArg (·.position.offset) (List.mem_singleton.1 hf))
  told := ⟨e, by rw [standingAt_singleton]; rfl, rfl, rfl⟩
  expected item := by simp [standingAt_singleton]
  failure := by
    rw [standingAt_singleton]
    cases h : e.failure <;> simp [h]

/-- What comes after a list counts only as far as it is. -/
theorem append_of_lt (h : Merged errors e)
    (hback : ∀ f ∈ back, f.position.offset < e.position.offset) : Merged (errors ++ back) e := by
  have hstanding : standingAt e.position.offset (errors ++ back) =
      standingAt e.position.offset errors := by
    rw [standingAt_append, standingAt_eq_nil hback, List.append_nil]
  refine ⟨fun f hf => ?_, hstanding ▸ h.told, hstanding ▸ h.expected, hstanding ▸ h.failure⟩
  rcases List.mem_append.1 hf with hf | hf
  · exact h.furthest f hf
  · exact Nat.le_of_lt (hback f hf)

/-- And what comes before it. -/
theorem append_of_gt (h : Merged back e)
    (hfront : ∀ f ∈ errors, f.position.offset < e.position.offset) :
    Merged (errors ++ back) e := by
  have hstanding : standingAt e.position.offset (errors ++ back) =
      standingAt e.position.offset back := by
    rw [standingAt_append, standingAt_eq_nil hfront, List.nil_append]
  refine ⟨fun f hf => ?_, hstanding ▸ h.told, hstanding ▸ h.expected, hstanding ▸ h.failure⟩
  rcases List.mem_append.1 hf with hf | hf
  · exact Nat.le_of_lt (hfront f hf)
  · exact h.furthest f hf

/-- **What two lists come to, merged, is what both in a row come to.** -/
theorem append (he : Merged errors e) (hf : Merged back f) :
    Merged (errors ++ back) (e.merge f) := by
  rcases Nat.lt_trichotomy e.position.offset f.position.offset with hlt | heq | hgt
  · rw [merge_of_lt hlt]
    exact hf.append_of_gt fun x hx => Nat.lt_of_le_of_lt (he.furthest x hx) hlt
  · rw [merge_of_eq heq]
    obtain ⟨first, hfirst, hposition, hfound⟩ := he.told
    refine ⟨fun x hx => ?_, ⟨first, ?_, hposition, hfound⟩, fun item => ?_, ?_⟩
    · rcases List.mem_append.1 hx with hx | hx
      · exact he.furthest x hx
      · exact heq ▸ hf.furthest x hx
    · rw [standingAt_append, List.head?_append, hfirst]
      rfl
    · rw [ItemSet.mem_union, he.expected, hf.expected, standingAt_append, heq]
      simp only [List.mem_append, or_and_right, exists_or]
    · rw [standingAt_append, List.findSome?_append, ← he.failure, hf.failure, heq]
  · rw [merge_of_gt hgt]
    exact he.append_of_lt fun x hx => Nat.lt_of_le_of_lt (hf.furthest x hx) hgt

/-- A list comes to an error that stands where one of them does. -/
theorem exists_standing (h : Merged errors e) :
    ∃ first ∈ errors, e.position = first.position ∧ e.found = first.found := by
  obtain ⟨first, hfirst, htold⟩ := h.told
  exact ⟨first, (mem_standingAt.1 (List.mem_of_mem_head? hfirst)).1, htold⟩

theorem offset_le (h : Merged errors e) (h' : Merged errors' e')
    (hmem : ∀ f, f ∈ errors → f ∈ errors') : e.position.offset ≤ e'.position.offset := by
  obtain ⟨first, hfirst, hposition, -⟩ := h.exists_standing
  rw [hposition]
  exact h'.furthest first (hmem first hfirst)

/-- A list comes to one error at most. -/
theorem unique (h : Merged errors e) (h' : Merged errors e') : e = e' := by
  have hoffset : e.position.offset = e'.position.offset :=
    Nat.le_antisymm (h.offset_le h' fun _ => id) (h'.offset_le h fun _ => id)
  obtain ⟨first, hfirst, hposition, hfound⟩ := h.told
  obtain ⟨first', hfirst', hposition', hfound'⟩ := h'.told
  obtain rfl : first = first' := Option.some.inj (hfirst.symm.trans (hoffset ▸ hfirst'))
  have hexpected : e.expected = e'.expected :=
    ItemSet.ext_mem fun item => by rw [h.expected, h'.expected, hoffset]
  have hfailure : e.failure = e'.failure := by rw [h.failure, h'.failure, hoffset]
  cases e
  cases e'
  simp_all

end Merged

/-! ## Merging a list, in order and with any brackets -/

/-- Errors are pooled with themselves. -/
theorem merge_self (e : ParseError) : e.merge e = e := by
  rw [merge_of_eq rfl, Option.or_self,
    show e.expected.union e.expected = e.expected from
      ItemSet.ext_mem fun item => by rw [ItemSet.mem_union, or_self]]

/-- An error, and each of some more merged into it in order. -/
def mergeAll (e : ParseError) (errors : List ParseError) : ParseError := errors.foldl merge e

/-- Errors are kept aside by merging them in order. -/
theorem joinAll_some (e : ParseError) (errors : List ParseError) :
    joinAll (some e) errors = some (mergeAll e errors) := by
  induction errors generalizing e with
  | nil => rfl
  | cons next errors ih => exact ih (e.merge next)

/-- An error that is merged in at the front may as well be merged in at the end. -/
theorem merge_mergeAll (e f : ParseError) (errors : List ParseError) :
    e.merge (mergeAll f errors) = mergeAll (e.merge f) errors := by
  induction errors generalizing f with
  | nil => rfl
  | cons next errors ih =>
    calc e.merge (mergeAll (f.merge next) errors)
        = mergeAll (e.merge (f.merge next)) errors := ih _
      _ = mergeAll ((e.merge f).merge next) errors := by rw [merge_assoc]

theorem mergeAll_merged (e : ParseError) (errors : List ParseError) :
    Merged (e :: errors) (mergeAll e errors) := by
  induction errors generalizing e with
  | nil => exact .singleton e
  | cons next errors ih =>
    rw [mergeAll, List.foldl_cons, ← mergeAll, ← merge_mergeAll]
    exact Merged.append (.singleton e) (ih next)

/-- Errors in the order in which they are merged, with brackets. -/
inductive Bracketing where
  /-- One error by itself. -/
  | one (e : ParseError)
  /-- What some errors come to, merged with what some more come to. -/
  | both (left right : Bracketing)

namespace Bracketing

/-- The errors without the brackets. -/
def errors : Bracketing → List ParseError
  | one e => [e]
  | both left right => left.errors ++ right.errors

/-- The errors merged as the brackets tell. -/
def merged : Bracketing → ParseError
  | one e => e
  | both left right => left.merged.merge right.merged

/-- Merging by brackets comes to what the list says, one case for each way to bracket. -/
theorem merged_errors (b : Bracketing) : Merged b.errors b.merged := by
  induction b with
  | one e => exact .singleton e
  | both left right ihleft ihright => exact ihleft.append ihright

/-- The brackets make no difference. -/
theorem merged_eq {b : Bracketing} {e : ParseError} {rest : List ParseError}
    (h : b.errors = e :: rest) : b.merged = mergeAll e rest :=
  (h ▸ b.merged_errors).unique (mergeAll_merged e rest)

end Bracketing

/-! ## Merging in any order -/

/-- Errors that stand at one offset tell one place and one character there, and no two of them have
messages that differ. -/
def Agreeing (errors : List ParseError) : Prop :=
  ∀ e ∈ errors, ∀ f ∈ errors, e.position.offset = f.position.offset →
    e.position = f.position ∧ e.found = f.found ∧
      ∀ m ∈ e.failure, ∀ m' ∈ f.failure, m = m'

namespace Agreeing

variable {errors : List ParseError} {offset : Nat}

/-- Where errors agree their message is that of any of them. -/
theorem findSome?_eq_some_iff (h : Agreeing errors) {m : String} :
    (standingAt offset errors).findSome? (·.failure) = some m ↔
      ∃ f ∈ errors, f.position.offset = offset ∧ f.failure = some m := by
  constructor
  · intro hm
    obtain ⟨f, hf, hfailure⟩ := List.exists_of_findSome?_eq_some hm
    exact ⟨f, (mem_standingAt.1 hf).1, (mem_standingAt.1 hf).2, hfailure⟩
  · rintro ⟨f, hf, hoffset, hfailure⟩
    cases hfirst : (standingAt offset errors).findSome? (·.failure) with
    | none =>
      have := List.findSome?_eq_none_iff.1 hfirst f (mem_standingAt.2 ⟨hf, hoffset⟩)
      exact nomatch this.symm.trans hfailure
    | some m' =>
      obtain ⟨f', hf', hfailure'⟩ := List.exists_of_findSome?_eq_some hfirst
      obtain ⟨hmem', hoffset'⟩ := mem_standingAt.1 hf'
      rw [(h f' hmem' f hf (hoffset'.trans hoffset.symm)).2.2 m' hfailure' m hfailure]

end Agreeing

/-- Errors that agree come to the same in any order. -/
theorem Merged.eq_of_perm {e e' : ParseError} {errors errors' : List ParseError}
    (h : Merged errors e) (h' : Merged errors' e') (hperm : errors.Perm errors')
    (hagree : Agreeing errors) : e = e' := by
  have hmem (f : ParseError) : f ∈ errors ↔ f ∈ errors' := hperm.mem_iff
  have hagree' : Agreeing errors' := fun x hx y hy =>
    hagree x ((hmem x).2 hx) y ((hmem y).2 hy)
  have hoffset : e.position.offset = e'.position.offset :=
    Nat.le_antisymm (h.offset_le h' fun f => (hmem f).1) (h'.offset_le h fun f => (hmem f).2)
  obtain ⟨first, hfirst, hposition, hfound⟩ := h.exists_standing
  obtain ⟨first', hfirst', hposition', hfound'⟩ := h'.exists_standing
  obtain ⟨hplace, hchar, -⟩ := hagree first hfirst first' ((hmem first').2 hfirst')
    (by rw [← hposition, ← hposition', hoffset])
  have hexpected : e.expected = e'.expected := ItemSet.ext_mem fun item => by
    rw [h.expected, h'.expected, hoffset]
    simp only [mem_standingAt, hmem]
  have hfailure : e.failure = e'.failure := Option.ext fun m => by
    rw [h.failure, h'.failure, hoffset, hagree.findSome?_eq_some_iff,
      hagree'.findSome?_eq_some_iff]
    simp only [hmem]
  cases e
  cases e'
  simp_all

/-- **Merging is a fold that takes the furthest first.** It is associative and idempotent. Errors
merged in order, with whatever brackets, come to the place and the character of the first of the
furthest ones, what exactly the furthest ones expected, and the first message among these. If errors
at one offset agree on place and character and have one message at most, their order makes no
difference either. -/
theorem merge_furthest_first :
    (∀ e f h : ParseError, (e.merge f).merge h = e.merge (f.merge h)) ∧
    (∀ e : ParseError, e.merge e = e) ∧
    (∀ e errors, Merged (e :: errors) (mergeAll e errors) ∧
      ∀ b : Bracketing, b.errors = e :: errors → b.merged = mergeAll e errors) ∧
    ∀ b b' : Bracketing, b.errors.Perm b'.errors → Agreeing b.errors → b.merged = b'.merged :=
  ⟨merge_assoc, merge_self, fun e errors => ⟨mergeAll_merged e errors, fun _ => Bracketing.merged_eq⟩,
    fun b b' hperm hagree => b.merged_errors.eq_of_perm b'.merged_errors hperm hagree⟩

/-- A message, two items and an error before them, merged from either end. -/
theorem merge_furthest_first_bracketed :
    let near := ParseError.failing ⟨0, 1, 1⟩ "early" (some 'x')
    let a := ParseError.expecting ⟨2, 1, 3⟩ "'a'" (some 'z')
    let b := ParseError.expecting ⟨2, 1, 3⟩ "'b'" (some 'z')
    let stop := ParseError.failing ⟨2, 1, 3⟩ "no way on" (some 'z')
    let leftmost := Bracketing.both (.both (.both (.one near) (.one b)) (.one stop)) (.one a)
    let rightmost := Bracketing.both (.one a) (.both (.one b) (.both (.one near) (.one stop)))
    leftmost.merged = mergeAll near [b, stop, a] ∧ leftmost.errors.Perm rightmost.errors ∧
      Agreeing leftmost.errors ∧ leftmost.merged = rightmost.merged ∧
      rightmost.merged = ⟨⟨2, 1, 3⟩, .ofList ["'a'", "'b'"], some 'z', some "no way on"⟩ := by
  intro near a b stop leftmost rightmost
  have hperm : leftmost.errors.Perm rightmost.errors := by decide
  have hagree : Agreeing leftmost.errors := by
    unfold Agreeing
    decide
  exact ⟨(merge_furthest_first.2.2.1 near [b, stop, a]).2 leftmost rfl, hperm, hagree,
    merge_furthest_first.2.2.2 leftmost rightmost hperm hagree, by decide⟩

end ParseError

/-! ## What a run tells -/

namespace Graph

open ParseError

variable {g : Graph} {id : ParserId} {input : String} {e : ParseError}

/-- What a run tells when it fails is the furthest of what its root failed with and of all that was
given up on the way. -/
theorem run_error_merged (hrun : g.run id input = .ok (.error e))
    (hstopped : ¬ g.Stopped id input) :
    ∃ own r, g.traced id input = .ok (.failed own, r) ∧ Merged (own :: g.givenUp r.turns) e := by
  obtain ⟨own, r, htraced, he⟩ := run_error_eq hrun hstopped
  have hall : some e = some (mergeAll own (g.givenUp r.turns)) := by
    rw [he, ← joinAll_eq, joinAll_some]
  exact ⟨own, r, htraced, Option.some.inj hall ▸ mergeAll_merged own _⟩

end Graph

end ParserGraph
