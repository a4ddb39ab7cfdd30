import ParserGraph.Proofs.Run.Finish

/-!
# Settled calls — what a parser reads, whatever the room

How much room a call had shows only in whether it finishes. `Graph.settles` is
the account of all calls that finish in some room, and it is closed under going
one level down (`Graph.settles_node`). Over any account, a parser takes a text
when that is all it can come to at a place (`Account.Takes`) and refuses when
it can come to no match only (`Account.Refuses`); operands that take or refuse
settle what a sequence, a choice or a repetition of them comes to.
-/

namespace ParserGraph

/-! ## Texts between two places -/

namespace Cursor

variable {c d e : Cursor} {text text' : List Char} {x : Char}

/-- Whatever character is next has a property. -/
def Next (c : Cursor) (P : Char → Prop) : Prop := ∀ x, c.peek = some x → P x

theorem Next.imp {P Q : Char → Prop} (h : c.Next P) (hQ : ∀ x, P x → Q x) : c.Next Q :=
  fun x hx => hQ x (h x hx)

/-- Reading a text leads from one place to another. -/
def Reads (c : Cursor) (text : List Char) (d : Cursor) : Prop :=
  c.ahead = text ++ d.ahead ∧ d = c.advance text.length

namespace Reads

theorem ahead (h : c.Reads text d) : c.ahead = text ++ d.ahead := h.1

theorem le (h : c.Reads text d) : c ≤ d := ⟨_, h.2⟩

/-- What is ahead can be read. -/
theorem of_ahead {rest : List Char} (h : c.ahead = text ++ rest) :
    c.Reads text (c.advance text.length) := by
  refine ⟨?_, rfl⟩
  rw [ahead_advance, h, List.drop_left]

theorem nil : c.Reads [] c := ⟨rfl, c.advance_zero.symm⟩

theorem eq_of_nil (h : c.Reads [] d) : d = c := h.2.trans c.advance_zero

/-- Two texts are read one after the other. -/
theorem append_iff : c.Reads (text ++ text') e ↔ ∃ d, c.Reads text d ∧ d.Reads text' e := by
  constructor
  · rintro ⟨hahead, hstop⟩
    rw [List.append_assoc] at hahead
    have hfront := of_ahead hahead
    refine ⟨_, hfront, ?_, ?_⟩
    · exact List.append_cancel_left (hfront.ahead.symm.trans hahead)
    · rw [hstop, advance_advance, List.length_append]
  · rintro ⟨d, hfront, hback⟩
    refine ⟨?_, ?_⟩
    · rw [hfront.ahead, hback.ahead, List.append_assoc]
    · rw [hback.2, hfront.2, advance_advance, List.length_append]

theorem trans (h : c.Reads text d) (h' : d.Reads text' e) : c.Reads (text ++ text') e :=
  append_iff.2 ⟨d, h, h'⟩

/-- A character is read before the others. -/
theorem cons_iff : c.Reads (x :: text) e ↔ ∃ d, c.Reads [x] d ∧ d.Reads text e := by
  rw [← List.singleton_append]
  exact append_iff

theorem cons (h : c.Reads [x] d) (h' : d.Reads text e) : c.Reads (x :: text) e :=
  cons_iff.2 ⟨d, h, h'⟩

/-- Reading moves the position over the text. -/
theorem position (h : c.Reads text d) : d.position = c.position.after text := by
  rw [h.2, position_advance, h.ahead, List.take_left]

theorem length (h : c.Reads text d) : c.ahead.length = text.length + d.ahead.length := by
  rw [h.ahead, List.length_append]

/-- Reading a character gets further. -/
theorem ne (h : c.Reads (x :: text) d) : d ≠ c := by
  rintro rfl
  have hlength := h.length
  rw [List.length_cons] at hlength
  omega

/-- The first character read is the one that was next. -/
theorem peek (h : c.Reads (x :: text) d) : c.peek = some x := by
  rw [Cursor.peek, h.ahead]
  rfl

/-- The first character read is all that can be next. -/
theorem next {P : Char → Prop} (h : c.Reads (x :: text) d) (hx : P x) : c.Next P := by
  intro y hy
  cases h.peek.symm.trans hy
  exact hx

/-- The next character can be read. -/
theorem of_peek (h : c.peek = some x) : c.Reads [x] (c.advance 1) := by
  rw [Cursor.peek] at h
  cases hahead : c.ahead with
  | nil => rw [hahead] at h; exact nomatch h
  | cons y rest =>
    rw [hahead] at h
    cases h
    exact of_ahead hahead

/-- The text between two places is the one read there. -/
theorem upTo (h : c.Reads text d) : c.upTo d = String.ofList text := by
  have hlength : c.ahead.length - d.ahead.length = text.length := by
    have := h.length
    omega
  rw [Cursor.upTo, Cursor.next, hlength, h.ahead, List.take_left]

end Reads

/-! ### Runs of characters -/

variable {accepts : Char → Bool}

/-- The characters next that are accepted, up to the first that is not. -/
def run (c : Cursor) (accepts : Char → Bool) : List Char := c.ahead.takeWhile accepts

/-- A run can be read. -/
theorem reads_run (c : Cursor) (accepts : Char → Bool) :
    c.Reads (c.run accepts) (c.advance (c.run accepts).length) :=
  .of_ahead List.takeWhile_append_dropWhile.symm

theorem accepts_of_mem_run (h : x ∈ c.run accepts) : accepts x = true :=
  List.all_eq_true.1 List.all_takeWhile x h

/-- A text of accepted characters is a run where no other follows. -/
theorem run_eq (h : c.Reads text d) (hall : ∀ x ∈ text, accepts x = true)
    (hd : d.Next fun x => accepts x = false) : c.run accepts = text := by
  rw [run, h.ahead, List.takeWhile_append_of_pos hall]
  have hnil : d.ahead.takeWhile accepts = [] := by
    cases hahead : d.ahead with
    | nil => rfl
    | cons x rest =>
      have hx : accepts x = false := hd x (by rw [peek, hahead]; rfl)
      exact List.takeWhile_cons_of_neg (by simp [hx])
  rw [hnil, List.append_nil]

/-- An accepted character goes before a run. -/
theorem run_of_reads (h : c.Reads [x] d) (hx : accepts x = true) :
    c.run accepts = x :: d.run accepts := by
  rw [run, h.ahead, List.singleton_append, List.takeWhile_cons_of_pos hx]
  rfl

end Cursor

/-! ## What accounts settle -/

namespace Account

/-- At a place, a call can come to nothing but a match with a tree up to another place. -/
def Takes (R : Account) (id : ParserId) (c : Cursor) (t : Tree) (d : Cursor) : Prop :=
  ∀ m, R id c m → m = some (t, d)

/-- At a place, a call can come to nothing but no match. -/
def Refuses (R : Account) (id : ParserId) (c : Cursor) : Prop := ∀ m, R id c m → m = none

/-- Calls one after another can come to nothing but matches with some trees up to a place. -/
inductive TakesAll (R : Account) : List ParserId → Cursor → List Tree → Cursor → Prop
  | nil {c : Cursor} : TakesAll R [] c [] c
  | cons {id : ParserId} {ids : List ParserId} {c mid d : Cursor} {t : Tree} {ts : List Tree} :
      R.Takes id c t mid → TakesAll R ids mid ts d → TakesAll R (id :: ids) c (t :: ts) d

/-- Of calls tried one by one, the first that does not refuse can come to nothing but a match. -/
inductive TakesFirst (R : Account) : List ParserId → Cursor → Tree → Cursor → Prop
  | here {id : ParserId} {ids : List ParserId} {c d : Cursor} {t : Tree} :
      R.Takes id c t d → TakesFirst R (id :: ids) c t d
  | later {id : ParserId} {ids : List ParserId} {c d : Cursor} {t : Tree} :
      R.Refuses id c → TakesFirst R ids c t d → TakesFirst R (id :: ids) c t d

end Account

section

variable {R R' : Account} {id : ParserId} {ids : List ParserId} {c d mid : Cursor} {t : Tree}
  {ts : List Tree} {min : Nat}

theorem InOrder.eq_of_takesAll {m : Match (List Tree)} (hids : R.TakesAll ids c ts d)
    (h : InOrder R ids c m) : m = some (ts, d) := by
  induction hids generalizing m with
  | nil => cases h; rfl
  | cons hid _ ih =>
    cases h with
    | fails hfail => exact nomatch hid _ hfail
    | cons hmatch hrest =>
      cases hid _ hmatch
      rw [ih hrest]
      rfl

theorem InOrder.nil_eq_some (h : InOrder R [] c (some (ts, d))) : ts = [] ∧ d = c := by
  cases h
  exact ⟨rfl, rfl⟩

/-- Where calls one after another match, the first does and then the others do. -/
theorem InOrder.cons_eq_some (h : InOrder R (id :: ids) c (some (ts, d))) :
    ∃ t mid ts', R id c (some (t, mid)) ∧ InOrder R ids mid (some (ts', d)) ∧ ts = t :: ts' := by
  generalize hm : some (ts, d) = m at h
  cases h with
  | fails _ => exact nomatch hm
  | cons hid hrest =>
    obtain ⟨ts', rfl, hts⟩ := Match.mapResult_eq_some_iff.1 hm.symm
    exact ⟨_, _, ts', hid, hrest, hts.symm⟩

theorem FirstOf.eq_of_takesFirst {m : Match Tree} (hids : R.TakesFirst ids c t d)
    (h : FirstOf R ids c m) : m = some (t, d) := by
  induction hids with
  | here hid =>
    cases h with
    | here hmatch => exact hid _ hmatch
    | later hfail _ => exact nomatch hid _ hfail
  | later hid _ ih =>
    cases h with
    | here hmatch => exact nomatch hid _ hmatch
    | later _ hrest => exact ih hrest

/-- Where one of several calls matches, it is one of them that does. -/
theorem FirstOf.exists_mem {r : Tree × Cursor} (h : FirstOf R ids c (some r)) :
    ∃ id ∈ ids, R id c (some r) := by
  generalize hm : some r = m at h
  induction h with
  | nil => exact nomatch hm
  | here hid =>
    cases hm
    exact ⟨_, List.mem_cons_self, hid⟩
  | later _ _ ih =>
    obtain ⟨id, hmem, hid⟩ := ih hm
    exact ⟨id, List.mem_cons_of_mem _ hmem, hid⟩

/-- Another round goes before the others, where it takes something. -/
theorem Rounds.of_takes {m : Match (List Tree)} (hid : R.Takes id c t mid) (hne : mid ≠ c)
    (h : Rounds R id min none c m) :
    ∃ m', Rounds R id (min - 1) none mid m' ∧ m = m'.mapResult (t :: ·) := by
  cases h with
  | ends _ hfail => exact nomatch hid _ hfail
  | stalls hstall =>
    cases hid _ hstall
    exact absurd rfl hne
  | again _ hmatch _ hrest =>
    cases hid _ hmatch
    exact ⟨_, hrest, rfl⟩

/-- The rounds end where another is refused. -/
theorem Rounds.of_refuses {m : Match (List Tree)} (hid : R.Refuses id c)
    (h : Rounds R id 0 none c m) : m = some ([], c) := by
  cases h with
  | ends _ _ => rfl
  | stalls hstall => exact nomatch hid _ hstall
  | again _ hmatch _ _ => exact nomatch hid _ hmatch

/-- **Rounds without an upper bound, from the last to the first**: what holds where a round fails
or gets nowhere, and before each other round if it holds after it, holds of all rounds that
match. -/
theorem Rounds.induction {motive : Cursor → List Tree → Cursor → Prop}
    (hends : ∀ c, R id c none → motive c [] c)
    (hstalls : ∀ c t ts, R id c (some (t, c)) → motive c ts c)
    (hagain : ∀ c t mid ts d, R id c (some (t, mid)) → motive mid ts d → motive c (t :: ts) d)
    (h : Rounds R id min none c (some (ts, d))) : motive c ts d := by
  generalize hm : some (ts, d) = m at h
  generalize hmax : none = max at h
  induction h generalizing ts with
  | full => exact nomatch hmax
  | ends _ hfail =>
    split at hm
    · cases hm
      exact hends _ hfail
    · exact nomatch hm
  | stalls hstall =>
    cases hm
    exact hstalls _ _ _ hstall
  | again _ hmatch _ _ ih =>
    subst hmax
    obtain ⟨ts', rfl, hts⟩ := Match.mapResult_eq_some_iff.1 hm.symm
    subst hts
    exact hagain _ _ _ _ _ hmatch (ih rfl rfl)

/-- A leaf for each character of a text. -/
def Tree.leaves : List Char → Position → List Tree
  | [], _ => []
  | x :: text, p => .leaf (String.ofList [x]) p :: leaves text (p.advance x)

/-- **Rounds of a parser that takes one character pass a run of them**, and match when it is long
enough. -/
theorem Rounds.of_one {accepts : Char → Bool} {m : Match (List Tree)}
    (hone : ∀ c m, R id c m →
      m = (c.one accepts).map fun n => (.leaf (c.next n) c.position, c.advance n))
    (h : Rounds R id min none c m) :
    m = if min ≤ (c.run accepts).length then
        some (Tree.leaves (c.run accepts) c.position, c.advance (c.run accepts).length)
      else none := by
  generalize hmax : none = max at h
  -- a character is taken, or there is none that is accepted
  have hcases : ∀ c m, R id c m →
      (m = none ∧ c.run accepts = []) ∨
        ∃ x d, m = some (.leaf (String.ofList [x]) c.position, d) ∧ c.Reads [x] d ∧
          accepts x = true := by
    intro c m hm
    rw [hone c m hm, Cursor.one]
    cases hpeek : c.peek with
    | none =>
      refine Or.inl ⟨rfl, ?_⟩
      rw [Cursor.run, List.head?_eq_none_iff.1 hpeek]
      rfl
    | some x =>
      have hread := Cursor.Reads.of_peek hpeek
      cases hx : accepts x with
      | true =>
        refine Or.inr ⟨x, c.advance 1, ?_, hread, hx⟩
        rw [Option.any_some, hx, if_pos rfl, Option.map_some, Cursor.next, hread.ahead]
        rfl
      | false =>
        refine Or.inl ⟨by simp [hx], ?_⟩
        rw [Cursor.run, hread.ahead]
        exact List.takeWhile_cons_of_neg (by simp [hx])
  induction h with
  | full => exact nomatch hmax
  | @ends min max c _ hfail =>
    rcases hcases _ _ hfail with ⟨-, hnil⟩ | ⟨x, d, hsome, -⟩
    · rw [hnil, List.length_nil, Cursor.advance_zero]
      simp only [Nat.le_zero_eq, Tree.leaves]
    · exact nomatch hsome
  | stalls hstall =>
    rcases hcases _ _ hstall with ⟨hnone, -⟩ | ⟨x, d, hsome, hread, -⟩
    · exact nomatch hnone
    · cases hsome
      exact absurd rfl hread.ne
  | @again min max c mid t m _ hmatch _ _ ih =>
    subst hmax
    rcases hcases _ _ hmatch with ⟨hnone, -⟩ | ⟨x, d, hsome, hread, hx⟩
    · exact nomatch hnone
    · cases hsome
      have hrun := Cursor.run_of_reads hread hx
      have hstop : c.advance (c.run accepts).length = mid.advance (mid.run accepts).length := by
        rw [hrun, hread.2, Cursor.advance_advance, List.length_cons, Nat.add_comm]
        rfl
      have hleaves : Tree.leaves (c.run accepts) c.position =
          .leaf (String.ofList [x]) c.position :: Tree.leaves (mid.run accepts) mid.position := by
        rw [hrun, hread.position]
        rfl
      have hle : min ≤ (c.run accepts).length ↔ min - 1 ≤ (mid.run accepts).length := by
        rw [hrun, List.length_cons]
        omega
      rw [ih rfl, hstop, hleaves]
      simp only [hle]
      split <;> rfl

/-! ## More calls, more outcomes -/

variable (hR : ∀ id c m, R id c m → R' id c m)
include hR

theorem InOrder.mono {m : Match (List Tree)} (h : InOrder R ids c m) : InOrder R' ids c m := by
  induction h with
  | nil => exact .nil
  | fails hid => exact .fails (hR _ _ _ hid)
  | cons hid _ ih => exact .cons (hR _ _ _ hid) ih

theorem FirstOf.mono {m : Match Tree} (h : FirstOf R ids c m) : FirstOf R' ids c m := by
  induction h with
  | nil => exact .nil
  | here hid => exact .here (hR _ _ _ hid)
  | later hid _ ih => exact .later (hR _ _ _ hid) ih

theorem Rounds.mono {max : Option Nat} {m : Match (List Tree)} (h : Rounds R id min max c m) :
    Rounds R' id min max c m := by
  induction h with
  | full => exact .full
  | ends hmax hid => exact .ends hmax (hR _ _ _ hid)
  | stalls hid => exact .stalls (hR _ _ _ hid)
  | again hmax hid hne _ ih => exact .again hmax (hR _ _ _ hid) hne ih

theorem Kind.Yields.mono {kind : Kind} {m : Match Tree} (h : kind.Yields R c m) :
    kind.Yields R' c m := by
  cases h with
  | terminal => exact .terminal
  | sequence h => exact .sequence (h.mono hR)
  | alternation h => exact .alternation (h.mono hR)
  | repetition h => exact .repetition (h.mono hR)
  | optional h => exact .optional (hR _ _ _ h)
  | lookahead h => exact .lookahead (hR _ _ _ h)
  | transform h => exact .transform (hR _ _ _ h)
  | token h => exact .token (hR _ _ _ h)
  | expect h => exact .expect (hR _ _ _ h)
  | rule h => exact .rule (hR _ _ _ h)
  | undefined => exact .undefined

end

/-! ## Calls in a graph -/

namespace Graph

/-- What calls come to that finish in some room. -/
def settles (g : Graph) : Account := fun id c m => ∃ room, (g.parse room).finishes id c m

variable {g : Graph} {id : ParserId} {c : Cursor} {name : Option String} {kind : Kind}
  {m : Match Tree}

/-- A run yields the tree that its call matches with. -/
theorem run_eq_matched {input : String} {t : Tree} {d : Cursor} {kept : Option ParseError}
    (h : ((g.parse g.maxDepth) id (Cursor.start input)).run none = .ok (.matched t d, kept)) :
    g.run id input = .ok (.ok t) := by
  rw [run, h]

/-- A tree that a run yields is one that its call comes to. -/
theorem settles_of_run {input : String} {t : Tree} (h : g.run id input = .ok (.ok t)) :
    ∃ d, g.settles id (Cursor.start input) (some (t, d)) := by
  rw [run] at h
  split at h
  · exact nomatch h
  · exact nomatch h
  · next d kept hrun =>
    cases h
    exact ⟨d, g.maxDepth, none, _, kept, hrun, rfl⟩
  · exact nomatch h
  · exact nomatch h

/-- **What a call comes to, its node yields over what calls come to.** -/
theorem settles_node (hnode : g.node? id = some ⟨name, kind⟩) (h : g.settles id c m) :
    ∃ m', kind.Yields g.settles c m' ∧ m = m'.mapResult (Node.label ⟨name, kind⟩) := by
  obtain ⟨room, h⟩ := h
  cases room with
  | zero => exact absurd h not_parse_zero_finishes
  | succ room =>
    obtain ⟨node, hnode', m', hyields, rfl⟩ := parse_finishes h
    cases hnode.symm.trans hnode'
    exact ⟨m', hyields.mono fun _ _ _ h => ⟨room, h⟩, rfl⟩

/-- What a call of a node without a name comes to. -/
theorem settles_anonymous (hnode : g.node? id = some ⟨none, kind⟩) (h : g.settles id c m) :
    kind.Yields g.settles c m := by
  obtain ⟨m', hyields, rfl⟩ := settles_node hnode h
  have hlabel : m'.mapResult (Node.label ⟨none, kind⟩) = m' := by
    cases m' <;> rfl
  rw [hlabel]
  exact hyields

/-- Where a call matches, its node does, and its name is a tag of the tree. -/
theorem settles_some {t : Tree} {d : Cursor} (hnode : g.node? id = some ⟨name, kind⟩)
    (h : g.settles id c (some (t, d))) :
    ∃ t', kind.Yields g.settles c (some (t', d)) ∧ t = name.elim t' t'.tagged := by
  obtain ⟨m', hyields, hm⟩ := settles_node hnode h
  obtain ⟨t', rfl, rfl⟩ := Match.mapResult_eq_some_iff.1 hm.symm
  exact ⟨t', hyields, by cases name <;> rfl⟩

/-- A call takes what its node can come to only. -/
theorem takes_of_yields {t : Tree} {d : Cursor} (hnode : g.node? id = some ⟨name, kind⟩)
    (h : ∀ m, kind.Yields g.settles c m → m = some (t, d)) :
    g.settles.Takes id c (name.elim t t.tagged) d := by
  intro m hm
  obtain ⟨m', hyields, rfl⟩ := settles_node hnode hm
  rw [h m' hyields]
  cases name <;> rfl

/-- A call refuses where its node does not match. -/
theorem refuses_of_yields (hnode : g.node? id = some ⟨name, kind⟩)
    (h : ∀ m, kind.Yields g.settles c m → m = none) : g.settles.Refuses id c := by
  intro m hm
  obtain ⟨m', hyields, rfl⟩ := settles_node hnode hm
  rw [h m' hyields]
  rfl

end Graph

/-! ## What nodes come to where they match, and where their operands take or refuse -/

section

variable {R : Account} {part : ParserId} {parts : List ParserId} {c d : Cursor} {t : Tree}
  {ts : List Tree} {m : Match Tree}

namespace Kind.Yields

theorem sequence_some (h : (Kind.sequence parts).Yields R c (some (t, d))) :
    ∃ ts, InOrder R parts c (some (ts, d)) ∧ t = .branch ts c.position := by
  generalize hm : some (t, d) = m at h
  cases h with
  | sequence hparts =>
    obtain ⟨ts, rfl, rfl⟩ := Match.mapResult_eq_some_iff.1 hm.symm
    exact ⟨ts, hparts, rfl⟩

theorem sequence_eq (hparts : R.TakesAll parts c ts d) (h : (Kind.sequence parts).Yields R c m) :
    m = some (.branch ts c.position, d) := by
  cases h with
  | sequence h => rw [h.eq_of_takesAll hparts]; rfl

theorem sequence_none {first : ParserId} (hfirst : R.Refuses first c)
    (h : (Kind.sequence (first :: parts)).Yields R c m) : m = none := by
  cases h with
  | sequence h =>
    cases h with
    | fails _ => rfl
    | cons hmatch _ => exact nomatch hfirst _ hmatch

theorem alternation_some (h : (Kind.alternation parts).Yields R c (some (t, d))) :
    ∃ id ∈ parts, R id c (some (t, d)) := by
  cases h with
  | alternation h => exact h.exists_mem

theorem alternation_eq (hparts : R.TakesFirst parts c t d)
    (h : (Kind.alternation parts).Yields R c m) : m = some (t, d) := by
  cases h with
  | alternation h => exact h.eq_of_takesFirst hparts

theorem alternation_none (hparts : ∀ id ∈ parts, R.Refuses id c)
    (h : (Kind.alternation parts).Yields R c m) : m = none := by
  cases m with
  | none => rfl
  | some r =>
    obtain ⟨id, hid, hmatch⟩ := alternation_some h
    exact hparts id hid _ hmatch

theorem repetition_some {min : Nat} {max : Option Nat}
    (h : (Kind.repetition part min max).Yields R c (some (t, d))) :
    ∃ ts, Rounds R part min max c (some (ts, d)) ∧ t = .branch ts c.position := by
  generalize hm : some (t, d) = m at h
  cases h with
  | repetition hrounds =>
    obtain ⟨ts, rfl, rfl⟩ := Match.mapResult_eq_some_iff.1 hm.symm
    exact ⟨ts, hrounds, rfl⟩

theorem repetition_eq {min : Nat} {max : Option Nat}
    (hrounds : ∀ m, Rounds R part min max c m → m = some (ts, d))
    (h : (Kind.repetition part min max).Yields R c m) : m = some (.branch ts c.position, d) := by
  cases h with
  | repetition h => rw [hrounds _ h]; rfl

theorem optional_some (h : (Kind.optional part).Yields R c (some (t, d))) :
    R part c (some (t, d)) ∨ R part c none ∧ t = .empty c.position ∧ d = c := by
  generalize hm : some (t, d) = m at h
  cases h with
  | @optional _ _ m hpart =>
    cases m with
    | none => cases hm; exact Or.inr ⟨hpart, rfl, rfl⟩
    | some r => cases hm; exact Or.inl hpart

theorem optional_eq (hpart : R.Takes part c t d) (h : (Kind.optional part).Yields R c m) :
    m = some (t, d) := by
  cases h with
  | optional h => rw [hpart _ h]; rfl

theorem optional_empty (hpart : R.Refuses part c) (h : (Kind.optional part).Yields R c m) :
    m = some (.empty c.position, c) := by
  cases h with
  | optional h => rw [hpart _ h]; rfl

theorem transform_some {mapping : Tree → Tree}
    (h : (Kind.transform part mapping).Yields R c (some (t, d))) :
    ∃ t', R part c (some (t', d)) ∧ t = mapping t' := by
  generalize hm : some (t, d) = m at h
  cases h with
  | transform hpart =>
    obtain ⟨t', rfl, rfl⟩ := Match.mapResult_eq_some_iff.1 hm.symm
    exact ⟨t', hpart, rfl⟩

theorem transform_eq {mapping : Tree → Tree} (hpart : R.Takes part c t d)
    (h : (Kind.transform part mapping).Yields R c m) : m = some (mapping t, d) := by
  cases h with
  | transform h => rw [hpart _ h]; rfl

theorem transform_none {mapping : Tree → Tree} (hpart : R.Refuses part c)
    (h : (Kind.transform part mapping).Yields R c m) : m = none := by
  cases h with
  | transform h => rw [hpart _ h]; rfl

theorem token_some (h : (Kind.token part).Yields R c (some (t, d))) :
    ∃ t', R part c (some (t', d)) ∧ t = .leaf (c.upTo d) c.position := by
  generalize hm : some (t, d) = m at h
  cases h with
  | token hpart =>
    obtain ⟨r, rfl, he⟩ := Option.map_eq_some_iff.1 hm.symm
    cases he
    exact ⟨r.1, hpart, rfl⟩

theorem token_eq (hpart : R.Takes part c t d) (h : (Kind.token part).Yields R c m) :
    m = some (.leaf (c.upTo d) c.position, d) := by
  cases h with
  | token h => rw [hpart _ h]; rfl

theorem token_none (hpart : R.Refuses part c) (h : (Kind.token part).Yields R c m) : m = none := by
  cases h with
  | token h => rw [hpart _ h]; rfl

theorem rule_iff {body : ParserId} : (Kind.rule (some body)).Yields R c m ↔ R body c m :=
  ⟨fun h => by cases h with | rule h => exact h, .rule⟩

end Kind.Yields

end

end ParserGraph
