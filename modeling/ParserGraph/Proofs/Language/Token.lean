import ParserGraph.Proofs.Language.Layout
import ParserGraph.Proofs.Language.Tree
import ParserGraph.Proofs.Run.Settled

/-!
# Tokens — what the parsers of tokens read

For every token there is what its parser can have read where it matches, and
the texts that it takes wherever they stand before something that does not go
on them. Blanks after a token are passed up to the first character that is
none, so what follows a token must not start with one.
-/

namespace ParserGraph

open Grammar Grammar.Language Grammar.Written

variable {g : Graph} {id : ParserId} {c d mid : Cursor} {t : Tree} {text : List Char} {x : Char}

/-! ## Single characters -/

section

variable {terminal : Terminal} {accepts : Char → Bool}
  (hnode : g.node? id = some ⟨none, .terminal terminal⟩)
  (hspan : ∀ c, terminal.span c = c.one accepts)
include hnode hspan

theorem Graph.settles_one {m : Match Tree} (h : g.settles id c m) :
    m = (c.one accepts).map fun n => (.leaf (c.next n) c.position, c.advance n) := by
  cases settles_anonymous hnode h with
  | terminal => rw [hspan]

/-- A parser of one character reads one that it accepts. -/
theorem Graph.settles_one_some (h : g.settles id c (some (t, d))) :
    ∃ x, c.Reads [x] d ∧ accepts x = true ∧ t = symbolTree x c.position := by
  have hone := settles_one hnode hspan h
  rw [Cursor.one] at hone
  cases hpeek : c.peek with
  | none =>
    rw [hpeek] at hone
    cases hone
  | some x =>
    rw [hpeek, Option.any_some] at hone
    cases hx : accepts x with
    | false =>
      rw [hx] at hone
      cases hone
    | true =>
      rw [hx] at hone
      cases hone
      have hread := Cursor.Reads.of_peek hpeek
      refine ⟨x, hread, hx, ?_⟩
      rw [symbolTree, Cursor.next, hread.ahead]
      rfl

/-- It takes any character that it accepts. -/
theorem Graph.takes_one (hread : c.Reads [x] d) (hx : accepts x = true) :
    g.settles.Takes id c (symbolTree x c.position) d := by
  intro m h
  rw [settles_one hnode hspan h, Cursor.one, hread.peek, Option.any_some, hx, if_pos rfl,
    Option.map_some, hread.2, symbolTree, Cursor.next, hread.ahead]
  rfl

/-- It refuses where no such character is next. -/
theorem Graph.refuses_one (hc : c.Next fun x => accepts x = false) : g.settles.Refuses id c := by
  intro m h
  rw [settles_one hnode hspan h, Cursor.one]
  cases hpeek : c.peek with
  | none => rfl
  | some x => rw [Option.any_some, hc x hpeek]; rfl

end

/-! ## No characters -/

section

variable {terminal : Terminal} (hnode : g.node? id = some ⟨none, .terminal terminal⟩)
include hnode

/-- A parser of no more than an edge of the input leaves nothing. -/
theorem Graph.settles_edge_some (hspan : ∀ n, terminal.span c = some n → n = 0)
    (h : g.settles id c (some (t, d))) :
    t = .empty c.position ∧ d = c ∧ terminal.span c = some 0 := by
  generalize hm : some (t, d) = m at h
  cases settles_anonymous hnode h with
  | terminal =>
    obtain ⟨n, hn, he⟩ := Option.map_eq_some_iff.1 hm.symm
    cases hspan n hn
    cases he
    exact ⟨rfl, c.advance_zero, hn⟩

theorem Graph.takes_edge (hspan : terminal.span c = some 0) :
    g.settles.Takes id c (.empty c.position) c := by
  intro m h
  cases settles_anonymous hnode h with
  | terminal =>
    rw [hspan, Option.map_some, c.advance_zero]
    rfl

end

/-! ## Runs of characters -/

section

variable {run one : ParserId} {min : Nat} {terminal : Terminal} {accepts : Char → Bool}
  (hrun : g.node? run = some ⟨none, .repetition one min none⟩)
  (hone : g.node? one = some ⟨none, .terminal terminal⟩)
  (hspan : ∀ c, terminal.span c = c.one accepts)
include hrun hone hspan

theorem Graph.settles_run {m : Match Tree} (h : g.settles run c m) :
    m = if min ≤ (c.run accepts).length then
        some (.branch (Tree.leaves (c.run accepts) c.position) c.position,
          c.advance (c.run accepts).length)
      else none := by
  cases settles_anonymous hrun h with
  | repetition hrounds =>
    rw [Rounds.of_one (fun _ _ => settles_one hone hspan) hrounds]
    split <;> rfl

/-- A repeated parser of one character reads a text of them. -/
theorem Graph.settles_run_some (h : g.settles run c (some (t, d))) :
    ∃ text, c.Reads text d ∧ (∀ x ∈ text, accepts x = true) ∧ min ≤ text.length := by
  have hm := settles_run hrun hone hspan h
  split at hm
  · next hmin =>
    cases hm
    exact ⟨c.run accepts, c.reads_run accepts, fun _ => Cursor.accepts_of_mem_run, hmin⟩
  · exact nomatch hm

/-- It takes a text that no other of them follows. -/
theorem Graph.takes_run (hread : c.Reads text d) (hall : ∀ x ∈ text, accepts x = true)
    (hd : d.Next fun x => accepts x = false) (hmin : min ≤ text.length) :
    g.settles.Takes run c (.branch (Tree.leaves text c.position) c.position) d := by
  intro m h
  rw [settles_run hrun hone hspan h, Cursor.run_eq hread hall hd, if_pos hmin, hread.2]

end

namespace Grammar.Language

variable {spaces part : ParserId} {name : Option String}

/-! ## Blanks -/

/-- What a text is followed by, it does not end in blanks. -/
def Clear (c : Cursor) : Prop := c.Next fun x => isBlank x = false

theorem contains_blanks : blanks.toList.contains = isBlank := by
  funext x
  simp [isBlank, blanks]

/-- Passing blanks passes all of them. -/
theorem IsBlankRun.settles (h : IsBlankRun g spaces) {m : Match Tree} (hm : g.settles spaces c m) :
    m = some (.empty c.position, c.advance (c.run isBlank).length) := by
  obtain ⟨run, blank, hskip, hrun, hblank⟩ := h
  cases Graph.settles_anonymous hskip hm with
  | transform hpart =>
    have hspan : ∀ c, (Terminal.oneOf blanks).span c = c.one isBlank := fun c => by
      rw [Terminal.span, contains_blanks]
    rw [Graph.settles_run hrun hblank hspan hpart, if_pos (Nat.zero_le _)]
    rfl

theorem IsBlankRun.settles_some (h : IsBlankRun g spaces) (hm : g.settles spaces c (some (t, d))) :
    ∃ b : Blanks, c.Reads b.text d ∧ t = .empty c.position := by
  cases h.settles hm
  exact ⟨⟨c.run isBlank, fun _ => Cursor.accepts_of_mem_run⟩, c.reads_run isBlank, rfl⟩

theorem IsBlankRun.takes (h : IsBlankRun g spaces) {b : Blanks} (hread : c.Reads b.text d)
    (hd : Clear d) : g.settles.Takes spaces c (.empty c.position) d := by
  intro m hm
  rw [h.settles hm, Cursor.run_eq hread b.blank hd, hread.2]

/-- What is checked of each character of a text holds of any in it. -/
theorem of_contains {check : Char → Bool} {text : String} {x : Char}
    (hall : text.toList.all check = true) (h : text.toList.contains x = true) : check x = true :=
  List.all_eq_true.1 hall x (List.contains_iff_mem.1 h)

/-- No blank goes on a name or a number. -/
theorem isNamePart_of_isBlank {x : Char} (h : isBlank x = true) : isNamePart x = false := by
  have hall : blanks.toList.all (!isNamePart ·) = true := by decide
  rw [← contains_blanks] at h
  simpa using of_contains hall h

theorem isDigit_of_isBlank {x : Char} (h : isBlank x = true) : x.isDigit = false := by
  have hall : blanks.toList.all (!Char.isDigit ·) = true := by decide
  rw [← contains_blanks] at h
  simpa using of_contains hall h

/-- What does not go on a text does not go on it behind blanks. -/
theorem next_of_blanks {P : Char → Prop} {b : Blanks} (hread : c.Reads b.text d)
    (hblank : ∀ x, isBlank x = true → P x) (hd : b.text = [] → d.Next P) : c.Next P := by
  cases hblanks : b.text with
  | nil =>
    rw [hblanks] at hread
    exact hread.eq_of_nil ▸ hd hblanks
  | cons x text =>
    refine Cursor.Reads.next (hblanks ▸ hread) (hblank x (b.blank x ?_))
    rw [hblanks]
    exact List.mem_cons_self

/-! ## Where tokens are refused -/

/-- A lexeme refuses where its part does. -/
theorem IsLexeme.refuses (h : IsLexeme g spaces name id part) (hpart : g.settles.Refuses part c) :
    g.settles.Refuses id c := by
  obtain ⟨both, hid, hboth⟩ := h
  refine Graph.refuses_of_yields hid fun m => Kind.Yields.transform_none ?_
  exact Graph.refuses_of_yields hboth fun m => Kind.Yields.sequence_none hpart

theorem IsNamed.refuses {tag : String} (h : IsNamed g spaces tag id part)
    (hpart : g.settles.Refuses part c) : g.settles.Refuses id c := by
  obtain ⟨text, hlexeme, htext⟩ := h
  exact hlexeme.refuses (Graph.refuses_of_yields htext fun m => Kind.Yields.token_none hpart)

theorem IsName.refuses (h : IsName g spaces id) (hc : c.Next fun x => isNameStart x = false) :
    g.settles.Refuses id c := by
  obtain ⟨whole, first, others, other, hid, hwhole, hfirst, -⟩ := h
  refine hid.refuses (Graph.refuses_of_yields hwhole fun m => Kind.Yields.sequence_none ?_)
  exact Graph.refuses_one hfirst (fun _ => rfl) hc

theorem IsNumber.refuses (h : IsNumber g spaces id) (hc : c.Next fun x => x.isDigit = false) :
    g.settles.Refuses id c := by
  obtain ⟨whole, digit, hid, hwhole, hdigit⟩ := h
  refine hid.refuses fun m hm => ?_
  rw [Graph.settles_run hwhole hdigit (fun _ => rfl) hm, Cursor.run_eq .nil (by simp) hc]
  rfl

theorem IsQuoted.refuses {mark : Char} {tag : String} (h : IsQuoted g spaces mark tag id)
    (hc : c.Next (· ≠ mark)) : g.settles.Refuses id c := by
  obtain ⟨whole, opening, body, closing, piece, escape, backslash, any, plain, hid, hwhole,
    hopening, -⟩ := h
  refine hid.refuses (Graph.refuses_of_yields hwhole fun m => Kind.Yields.sequence_none ?_)
  exact Graph.refuses_one hopening (fun _ => rfl) fun y hy => by simpa using hc y hy

theorem IsSymbol.refuses (h : IsSymbol g spaces id x) (hc : c.Next (· ≠ x)) :
    g.settles.Refuses id c := by
  obtain ⟨part, hlexeme, hpart⟩ := h
  exact hlexeme.refuses (Graph.refuses_one hpart (fun _ => rfl) fun y hy => by simpa using hc y hy)

/-! ## Tokens and the blanks after them -/

section

variable (hs : IsBlankRun g spaces)
include hs

theorem IsLexeme.settles_some (h : IsLexeme g spaces name id part)
    (hm : g.settles id c (some (t, d))) :
    ∃ t' mid, g.settles part c (some (t', mid)) ∧ (∃ b : Blanks, mid.Reads b.text d) ∧
      t = name.elim t' t'.tagged := by
  obtain ⟨both, hid, hboth⟩ := h
  obtain ⟨t₁, hyields, rfl⟩ := Graph.settles_some hid hm
  obtain ⟨t₂, hcall, rfl⟩ := hyields.transform_some
  obtain ⟨ts, hparts, rfl⟩ := (Graph.settles_anonymous hboth hcall).sequence_some
  obtain ⟨t', mid, ts', hpart, hrest, rfl⟩ := hparts.cons_eq_some
  obtain ⟨t'', mid', ts'', hblanks, hnil, rfl⟩ := hrest.cons_eq_some
  obtain ⟨-, rfl⟩ := hnil.nil_eq_some
  obtain ⟨b, hread, -⟩ := hs.settles_some hblanks
  exact ⟨t', mid, hpart, ⟨b, hread⟩, rfl⟩

theorem IsLexeme.takes (h : IsLexeme g spaces name id part)
    (hpart : g.settles.Takes part c t mid) {b : Blanks} (hread : mid.Reads b.text d)
    (hd : Clear d) : g.settles.Takes id c (name.elim t t.tagged) d := by
  obtain ⟨both, hid, hboth⟩ := h
  have htakes : g.settles.Takes both c (.branch [t, .empty mid.position] c.position) d :=
    Graph.takes_of_yields hboth fun m =>
      Kind.Yields.sequence_eq (.cons hpart (.cons (hs.takes hread hd) .nil))
  exact Graph.takes_of_yields hid fun m => Kind.Yields.transform_eq htakes

/-! ### Characters -/

theorem IsSymbol.settles_some (h : IsSymbol g spaces id x) (hm : g.settles id c (some (t, d))) :
    ∃ b : Blanks, c.Reads (x :: b.text) d ∧ t = symbolTree x c.position := by
  obtain ⟨part, hlexeme, hpart⟩ := h
  obtain ⟨t', mid, hmatch, ⟨b, hread⟩, rfl⟩ := hlexeme.settles_some hs hm
  obtain ⟨y, hy, hxy, rfl⟩ := Graph.settles_one_some hpart (fun _ => rfl) hmatch
  cases eq_of_beq hxy
  exact ⟨b, hy.cons hread, rfl⟩

theorem IsSymbol.takes (h : IsSymbol g spaces id x) {b : Blanks} (hread : c.Reads (x :: b.text) d)
    (hd : Clear d) : g.settles.Takes id c (symbolTree x c.position) d := by
  obtain ⟨part, hlexeme, hpart⟩ := h
  obtain ⟨mid, hx, hb⟩ := Cursor.Reads.cons_iff.1 hread
  exact hlexeme.takes hs (Graph.takes_one hpart (fun _ => rfl) hx (beq_self_eq_true x)) hb hd

/-! ### Texts under a name -/

variable {tag : String}

theorem IsNamed.settles_some (h : IsNamed g spaces tag id part)
    (hm : g.settles id c (some (t, d))) :
    ∃ t' mid, g.settles part c (some (t', mid)) ∧ (∃ b : Blanks, mid.Reads b.text d) ∧
      t = ⟨tag, c.upTo mid, c.position, []⟩ := by
  obtain ⟨text, hlexeme, htext⟩ := h
  obtain ⟨t', mid, hmatch, hblanks, rfl⟩ := hlexeme.settles_some hs hm
  obtain ⟨t'', hpart, rfl⟩ := (Graph.settles_anonymous htext hmatch).token_some
  exact ⟨t'', mid, hpart, hblanks, rfl⟩

theorem IsNamed.takes (h : IsNamed g spaces tag id part) (hpart : g.settles.Takes part c t mid)
    {b : Blanks} (hread : mid.Reads b.text d) (hd : Clear d) :
    g.settles.Takes id c ⟨tag, c.upTo mid, c.position, []⟩ d := by
  obtain ⟨text, hlexeme, htext⟩ := h
  have htakes : g.settles.Takes text c (.leaf (c.upTo mid) c.position) mid :=
    Graph.takes_of_yields htext fun m => Kind.Yields.token_eq hpart
  exact hlexeme.takes hs htakes hread hd

/-! ### Names -/

/-- The parser of names reads a name and the blanks after it. -/
theorem IsName.settles_some (h : IsName g spaces id) (hm : g.settles id c (some (t, d))) :
    ∃ (n : Name) (b : Blanks), c.Reads (n.text ++ b.text) d ∧ t = n.tree c.position := by
  obtain ⟨whole, first, others, other, hid, hwhole, hfirst, hothers, hother⟩ := h
  obtain ⟨t', mid, hmatch, ⟨b, hb⟩, rfl⟩ := hid.settles_some hs hm
  obtain ⟨ts, hparts, rfl⟩ := (Graph.settles_anonymous hwhole hmatch).sequence_some
  obtain ⟨t₁, mid₁, ts₁, hcall, hrest, rfl⟩ := hparts.cons_eq_some
  obtain ⟨t₂, mid₂, ts₂, hcalls, hnil, rfl⟩ := hrest.cons_eq_some
  obtain ⟨-, rfl⟩ := hnil.nil_eq_some
  obtain ⟨x, hx, hstart, -⟩ := Graph.settles_one_some hfirst (fun _ => rfl) hcall
  obtain ⟨text, htext, hpart, -⟩ := Graph.settles_run_some hothers hother (fun _ => rfl) hcalls
  have hread : c.Reads (x :: text) mid := hx.cons htext
  exact ⟨⟨x, text, hstart, hpart⟩, b, hread.trans hb, by rw [hread.upTo]; rfl⟩

/-- It takes a name and blanks that no other part of a name and no other blank follows. -/
theorem IsName.takes (h : IsName g spaces id) {n : Name} {b : Blanks}
    (hread : c.Reads (n.text ++ b.text) d) (hd : Clear d)
    (hname : b.text = [] → d.Next fun x => isNamePart x = false) :
    g.settles.Takes id c (n.tree c.position) d := by
  obtain ⟨whole, first, others, other, hid, hwhole, hfirst, hothers, hother⟩ := h
  obtain ⟨mid, hn, hb⟩ := Cursor.Reads.append_iff.1 hread
  obtain ⟨mid₁, hx, hrest⟩ := Cursor.Reads.cons_iff.1 hn
  have hmid : mid.Next fun x => isNamePart x = false :=
    next_of_blanks hb (fun _ => isNamePart_of_isBlank) hname
  have hwhole := Graph.takes_of_yields hwhole fun m => Kind.Yields.sequence_eq
    (.cons (Graph.takes_one hfirst (fun _ => rfl) hx n.start)
      (.cons (Graph.takes_run hothers hother (fun _ => rfl) hrest n.part hmid (Nat.zero_le _))
        .nil))
  have htakes := hid.takes hs hwhole hb hd
  rw [hn.upTo] at htakes
  exact htakes

/-! ### Numbers -/

theorem IsNumber.settles_some (h : IsNumber g spaces id) (hm : g.settles id c (some (t, d))) :
    ∃ (n : Number) (b : Blanks), c.Reads (n.text ++ b.text) d ∧ t = n.tree c.position := by
  obtain ⟨whole, digit, hid, hwhole, hdigit⟩ := h
  obtain ⟨t', mid, hmatch, ⟨b, hb⟩, rfl⟩ := hid.settles_some hs hm
  obtain ⟨text, htext, hdigits, hmin⟩ :=
    Graph.settles_run_some hwhole hdigit (fun _ => rfl) hmatch
  cases text with
  | nil => exact absurd hmin (by decide)
  | cons x text => exact ⟨⟨x, text, hdigits⟩, b, htext.trans hb, by rw [htext.upTo]; rfl⟩

theorem IsNumber.takes (h : IsNumber g spaces id) {n : Number} {b : Blanks}
    (hread : c.Reads (n.text ++ b.text) d) (hd : Clear d)
    (hnumber : d.Next fun x => x.isDigit = false) :
    g.settles.Takes id c (n.tree c.position) d := by
  obtain ⟨whole, digit, hid, hwhole, hdigit⟩ := h
  obtain ⟨mid, hn, hb⟩ := Cursor.Reads.append_iff.1 hread
  have hmid : mid.Next fun x => x.isDigit = false :=
    next_of_blanks hb (fun _ => isDigit_of_isBlank) fun _ => hnumber
  have htakes := hid.takes hs
    (Graph.takes_run hwhole hdigit (fun _ => rfl) hn n.digit hmid
      (Nat.succ_le_succ (Nat.zero_le _))) hb hd
  rw [hn.upTo] at htakes
  exact htakes

end

/-! ### Quoted texts -/

section

variable {mark : Char} {tag : String} {piece escape backslash any plain : ParserId}
  (hpiece : g.node? piece = some ⟨none, .alternation [escape, plain]⟩)
  (hescape : g.node? escape = some ⟨none, .sequence [backslash, any]⟩)
  (hbackslash : g.node? backslash = some ⟨none, .terminal (.char '\\')⟩)
  (hany : g.node? any = some ⟨none, .terminal .any⟩)
  (hplain : g.node? plain = some ⟨none, .terminal (.noneOf (String.ofList [mark, '\\']))⟩)
include hpiece hescape hbackslash hany hplain

/-- What the parser of pieces reads is one. -/
theorem piece_settles_some (h : g.settles piece c (some (t, d))) :
    ∃ q : Piece mark, c.Reads q.text d := by
  obtain ⟨id, hid, hcall⟩ := (Graph.settles_anonymous hpiece h).alternation_some
  rw [List.mem_cons, List.mem_singleton] at hid
  rcases hid with rfl | rfl
  · obtain ⟨ts, hparts, -⟩ := (Graph.settles_anonymous hescape hcall).sequence_some
    obtain ⟨t₁, mid, ts₁, hfirst, hrest, rfl⟩ := hparts.cons_eq_some
    obtain ⟨t₂, mid₂, ts₂, hsecond, hnil, rfl⟩ := hrest.cons_eq_some
    obtain ⟨-, rfl⟩ := hnil.nil_eq_some
    obtain ⟨x, hx, hxb, -⟩ := Graph.settles_one_some hbackslash (fun _ => rfl) hfirst
    obtain ⟨y, hy, -, -⟩ := Graph.settles_one_some hany (fun _ => rfl) hsecond
    cases eq_of_beq hxb
    exact ⟨.escaped y, hx.cons hy⟩
  · obtain ⟨x, hx, hplain, -⟩ := Graph.settles_one_some hplain (fun _ => rfl) hcall
    have hne : x ≠ mark ∧ x ≠ '\\' := by simpa using hplain
    exact ⟨.plain x hne.1 hne.2, hx⟩

/-- It takes any piece. -/
theorem exists_takes_piece {q : Piece mark} (hread : c.Reads q.text d) :
    ∃ t, g.settles.Takes piece c t d := by
  cases q with
  | plain x hmark hback =>
    have hrefuses : g.settles.Refuses escape c :=
      Graph.refuses_of_yields hescape fun m => Kind.Yields.sequence_none
        (Graph.refuses_one hbackslash (fun _ => rfl) (hread.next (by simpa using hback)))
    have htakes := Graph.takes_one hplain (fun _ => rfl) hread (by simp [hmark, hback])
    exact ⟨_, Graph.takes_of_yields hpiece fun m =>
      Kind.Yields.alternation_eq (.later hrefuses (.here htakes))⟩
  | escaped x =>
    obtain ⟨mid, hb, hx⟩ := Cursor.Reads.cons_iff.1 hread
    have htakes := Graph.takes_of_yields hescape fun m => Kind.Yields.sequence_eq
      (.cons (Graph.takes_one hbackslash (fun _ => rfl) hb (beq_self_eq_true _))
        (.cons (Graph.takes_one hany (fun _ => rfl) hx rfl) .nil))
    exact ⟨_, Graph.takes_of_yields hpiece fun m => Kind.Yields.alternation_eq (.here htakes)⟩

omit hany in
/-- It refuses the closing mark. -/
theorem piece_refuses (hmark : mark ≠ '\\') (hc : c.peek = some mark) :
    g.settles.Refuses piece c := by
  have hnext : ∀ P : Char → Prop, P mark → c.Next P := fun P hP x hx => by
    cases hc.symm.trans hx
    exact hP
  refine Graph.refuses_of_yields hpiece fun m => Kind.Yields.alternation_none fun id hid => ?_
  rw [List.mem_cons, List.mem_singleton] at hid
  rcases hid with rfl | rfl
  · exact Graph.refuses_of_yields hescape fun m => Kind.Yields.sequence_none
      (Graph.refuses_one hbackslash (fun _ => rfl) (hnext _ (by simpa using hmark)))
  · exact Graph.refuses_one hplain (fun _ => rfl) (hnext _ (by simp))

/-- What the parser of many pieces reads is some. -/
theorem pieces_settles_some {ts : List Tree} {min : Nat}
    (h : Rounds g.settles piece min none c (some (ts, d))) :
    ∃ pieces : List (Piece mark), c.Reads (piecesText pieces) d := by
  refine Rounds.induction (motive := fun c _ d => ∃ pieces : List (Piece mark),
    c.Reads (piecesText pieces) d) (fun c _ => ⟨[], .nil⟩) (fun c _ _ _ => ⟨[], .nil⟩)
    (fun c t mid ts d hmatch ih => ?_) h
  obtain ⟨q, hq⟩ := piece_settles_some hpiece hescape hbackslash hany hplain hmatch
  obtain ⟨pieces, hpieces⟩ := ih
  exact ⟨q :: pieces, hq.trans hpieces⟩

/-- It takes any pieces before the closing mark. -/
theorem exists_pieces_eq (hmark : mark ≠ '\\') {pieces : List (Piece mark)}
    (hread : c.Reads (piecesText pieces) d) (hd : d.peek = some mark) :
    ∃ ts, ∀ m, Rounds g.settles piece 0 none c m → m = some (ts, d) := by
  induction pieces generalizing c with
  | nil =>
    cases hread.eq_of_nil
    exact ⟨[], fun m => Rounds.of_refuses
      (piece_refuses hpiece hescape hbackslash hplain hmark hd)⟩
  | cons q pieces ih =>
    obtain ⟨mid, hq, hrest⟩ := Cursor.Reads.append_iff.1 hread
    obtain ⟨t, ht⟩ := exists_takes_piece hpiece hescape hbackslash hany hplain hq
    obtain ⟨ts, hts⟩ := ih hrest
    have hne : mid ≠ c := by
      cases q with
      | plain x _ _ => exact hq.ne
      | escaped x => exact hq.ne
    refine ⟨t :: ts, fun m hm => ?_⟩
    obtain ⟨m', hm', rfl⟩ := hm.of_takes ht hne
    rw [hts m' hm']
    rfl

end

section

variable {mark : Char} {tag : String} (hs : IsBlankRun g spaces)
include hs

/-- The parser of quoted texts reads one and the blanks after it. -/
theorem IsQuoted.settles_some (h : IsQuoted g spaces mark tag id)
    (hm : g.settles id c (some (t, d))) :
    ∃ (q : Quoted mark) (b : Blanks), c.Reads (q.text ++ b.text) d ∧ t = q.tree tag c.position := by
  obtain ⟨whole, opening, body, closing, piece, escape, backslash, any, plain, hid, hwhole,
    hopening, hbody, hclosing, hpiece, hescape, hbackslash, hany, hplain⟩ := h
  obtain ⟨t', mid, hmatch, ⟨b, hb⟩, rfl⟩ := hid.settles_some hs hm
  obtain ⟨ts, hparts, rfl⟩ := (Graph.settles_anonymous hwhole hmatch).sequence_some
  obtain ⟨t₁, mid₁, ts₁, hfirst, hrest₁, rfl⟩ := hparts.cons_eq_some
  obtain ⟨t₂, mid₂, ts₂, hsecond, hrest₂, rfl⟩ := hrest₁.cons_eq_some
  obtain ⟨t₃, mid₃, ts₃, hthird, hnil, rfl⟩ := hrest₂.cons_eq_some
  obtain ⟨-, rfl⟩ := hnil.nil_eq_some
  obtain ⟨x, hx, hxmark, -⟩ := Graph.settles_one_some hopening (fun _ => rfl) hfirst
  obtain ⟨ts, hrounds, -⟩ := (Graph.settles_anonymous hbody hsecond).repetition_some
  obtain ⟨pieces, hpieces⟩ := pieces_settles_some hpiece hescape hbackslash hany hplain hrounds
  obtain ⟨y, hy, hymark, -⟩ := Graph.settles_one_some hclosing (fun _ => rfl) hthird
  cases eq_of_beq hxmark
  cases eq_of_beq hymark
  have hread : c.Reads (Quoted.text ⟨pieces⟩) mid := hx.cons (hpieces.trans hy)
  exact ⟨⟨pieces⟩, b, hread.trans hb, by rw [hread.upTo]; rfl⟩

/-- It takes any quoted text and blanks that no other blank follows. -/
theorem IsQuoted.takes (h : IsQuoted g spaces mark tag id) (hmark : mark ≠ '\\') {q : Quoted mark}
    {b : Blanks} (hread : c.Reads (q.text ++ b.text) d) (hd : Clear d) :
    g.settles.Takes id c (q.tree tag c.position) d := by
  obtain ⟨whole, opening, body, closing, piece, escape, backslash, any, plain, hid, hwhole,
    hopening, hbody, hclosing, hpiece, hescape, hbackslash, hany, hplain⟩ := h
  obtain ⟨mid, hq, hb⟩ := Cursor.Reads.append_iff.1 hread
  obtain ⟨mid₁, hx, hrest⟩ := Cursor.Reads.cons_iff.1 hq
  obtain ⟨mid₂, hpieces, hy⟩ := Cursor.Reads.append_iff.1 hrest
  obtain ⟨ts, hts⟩ := exists_pieces_eq hpiece hescape hbackslash hany hplain hmark hpieces hy.peek
  have hbodyTakes : g.settles.Takes body mid₁ (.branch ts mid₁.position) mid₂ :=
    Graph.takes_of_yields hbody fun m => Kind.Yields.repetition_eq hts
  have htakes := hid.takes hs (Graph.takes_of_yields hwhole fun m => Kind.Yields.sequence_eq
    (.cons (Graph.takes_one hopening (fun _ => rfl) hx (beq_self_eq_true _))
      (.cons hbodyTakes
        (.cons (Graph.takes_one hclosing (fun _ => rfl) hy (beq_self_eq_true _)) .nil)))) hb hd
  rw [hq.upTo] at htakes
  exact htakes

end

end Grammar.Language

end ParserGraph
