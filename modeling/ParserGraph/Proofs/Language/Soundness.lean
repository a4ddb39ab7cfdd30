import ParserGraph.Proofs.Language.Token
import ParserGraph.Proofs.Peg.Adequacy

/-!
# Soundness — what the parser of the language reads is a written grammar

Where a parser of the language matches, what it read is the text of a written
phrase, and its tree is the tree of that phrase. The induction is on the text
that is left: a group reads its parenthesis before it comes to alternatives
again. Where alternatives end, one more factor fails, and where statements
end, one more statement does; tried there once more, to tell what is missing,
they fail again, since a parser matches at a place or it does not
(`Graph.settles_offset_eq`).
-/

namespace ParserGraph

open Grammar.Written

/-- At a place of an input, a call matches up to one place or it does not match. -/
theorem Graph.settles_offset_eq {g : Graph} {id : ParserId} {input : String} {c : Cursor}
    {m m' : Match Tree} (hc : Cursor.start input ≤ c) (h : g.settles id c m)
    (h' : g.settles id c m') : m.offset = m'.offset := by
  obtain ⟨room, h⟩ := h
  obtain ⟨room', h'⟩ := h'
  exact offset_eq_of_peg_eq rfl h h' hc

namespace Grammar.Language

variable {g : Graph} {c d : Cursor} {t : Tree} {n : Nat}

/-! ## Parts side by side -/

section

variable {name : Option String} {id : ParserId} {parts : List ParserId}

theorem IsFlat.settles_some (h : IsFlat g name id parts) (hm : g.settles id c (some (t, d))) :
    ∃ ts, InOrder g.settles parts c (some (ts, d)) ∧
      t = ⟨name.getD "", "", c.position, Tree.spliceAll ts⟩ := by
  obtain ⟨all, hid, hall⟩ := h
  obtain ⟨t₁, hyields, rfl⟩ := Graph.settles_some hid hm
  obtain ⟨t₂, hcall, rfl⟩ := hyields.transform_some
  obtain ⟨ts, hparts, rfl⟩ := (Graph.settles_anonymous hall hcall).sequence_some
  exact ⟨ts, hparts, by cases name <;> rfl⟩

theorem IsFlat.takes (h : IsFlat g name id parts) {ts : List Tree}
    (hparts : g.settles.TakesAll parts c ts d) :
    g.settles.Takes id c ⟨name.getD "", "", c.position, Tree.spliceAll ts⟩ d := by
  obtain ⟨all, hid, hall⟩ := h
  have htakes := Graph.takes_of_yields hid fun m => Kind.Yields.transform_eq
    (Graph.takes_of_yields hall fun m => Kind.Yields.sequence_eq hparts)
  cases name <;> exact htakes

theorem IsFlat.refuses {first : ParserId} (h : IsFlat g name id (first :: parts))
    (hfirst : g.settles.Refuses first c) : g.settles.Refuses id c := by
  obtain ⟨all, hid, hall⟩ := h
  exact Graph.refuses_of_yields hid fun m => Kind.Yields.transform_none
    (Graph.refuses_of_yields hall fun m => Kind.Yields.sequence_none hfirst)

end

section

variable {p : Parsers} (h : Layout g p)
include h

/-! ## Suffixes -/

/-- Counts in braces are read as a suffix. -/
theorem Layout.bounds_settles_some {bounds : ParserId}
    (hbounds : IsBounds g p.spaces p.digits bounds) (hm : g.settles bounds c (some (t, d))) :
    ∃ s : Suffix, c.Reads s.text d ∧ t.tagged "suffix" = s.tree c.position := by
  obtain ⟨opening, tail, closing, more, comma, upper, hflat, hopening, htail, hmore, hcomma, hupper,
    hclosing⟩ := hbounds
  obtain ⟨ts, hparts, rfl⟩ := hflat.settles_some hm
  obtain ⟨t₁, c₁, ts₁, hm₁, hrest₁, rfl⟩ := hparts.cons_eq_some
  obtain ⟨t₂, c₂, ts₂, hm₂, hrest₂, rfl⟩ := hrest₁.cons_eq_some
  obtain ⟨t₃, c₃, ts₃, hm₃, hrest₃, rfl⟩ := hrest₂.cons_eq_some
  obtain ⟨t₄, c₄, ts₄, hm₄, hnil, rfl⟩ := hrest₃.cons_eq_some
  obtain ⟨rfl, rfl⟩ := hnil.nil_eq_some
  obtain ⟨b₁, hr₁, rfl⟩ := hopening.settles_some h.spaces hm₁
  obtain ⟨low, b₂, hr₂, rfl⟩ := h.digits.settles_some h.spaces hm₂
  obtain ⟨b₄, hr₄, rfl⟩ := hclosing.settles_some h.spaces hm₄
  rcases (Graph.settles_anonymous htail hm₃).optional_some with hm₃ | ⟨-, rfl, rfl⟩
  · -- a comma, and perhaps an upper bound
    obtain ⟨us, hmore, rfl⟩ := (Graph.settles_anonymous hmore hm₃).sequence_some
    obtain ⟨u₁, e₁, us₁, hu₁, hupperOnly, rfl⟩ := hmore.cons_eq_some
    obtain ⟨u₂, e₂, us₂, hu₂, hnone, rfl⟩ := hupperOnly.cons_eq_some
    obtain ⟨rfl, rfl⟩ := hnone.nil_eq_some
    obtain ⟨b₃, hr₃, rfl⟩ := hcomma.settles_some h.spaces hu₁
    rcases (Graph.settles_anonymous hupper hu₂).optional_some with hu₂ | ⟨-, rfl, rfl⟩
    · obtain ⟨high, b₅, hr₅, rfl⟩ := h.digits.settles_some h.spaces hu₂
      refine ⟨.between b₁ low b₂ b₃ high b₅ b₄,
        hr₁.trans (hr₂.trans (hr₃.trans (hr₅.trans hr₄))), ?_⟩
      simp [Suffix.tree, Tree.spliceAll, Tree.splice_branch, Tree.tagged, Tree.withTag,
        hr₁.position, hr₂.position, hr₃.position, hr₅.position]
    · refine ⟨.atLeast b₁ low b₂ b₃ b₄, hr₁.trans (hr₂.trans (hr₃.trans hr₄)), ?_⟩
      simp [Suffix.tree, Tree.spliceAll, Tree.splice_branch, Tree.splice_empty, Tree.tagged,
        Tree.withTag, hr₁.position, hr₂.position, hr₃.position]
  · refine ⟨.exactly b₁ low b₂ b₄, hr₁.trans (hr₂.trans hr₄), ?_⟩
    simp [Suffix.tree, Tree.spliceAll, Tree.splice_empty, Tree.tagged, Tree.withTag,
      hr₁.position, hr₂.position]

/-- Perhaps a suffix is read. -/
theorem Layout.suffix_settles_some (hm : g.settles p.suffix c (some (t, d))) :
    ∃ s : Option Suffix, c.Reads (s.elim [] Suffix.text) d ∧
      t = s.elim (.empty c.position) fun s => s.tree c.position := by
  obtain ⟨given, operator, one, bounds, hsuffix, hgiven, hoperator, hone, hbounds⟩ := h.suffix
  rcases (Graph.settles_anonymous hsuffix hm).optional_some with hm | ⟨-, rfl, rfl⟩
  · obtain ⟨t, hyields, rfl⟩ := Graph.settles_some hgiven hm
    obtain ⟨id, hid, hm⟩ := hyields.alternation_some
    rw [List.mem_cons, List.mem_singleton] at hid
    rcases hid with rfl | rfl
    · obtain ⟨t', mid, hpart, ⟨b, hb⟩, rfl⟩ := hoperator.settles_some h.spaces hm
      obtain ⟨x, hx, hmem, rfl⟩ := Graph.settles_one_some hone (fun _ => rfl) hpart
      have hop : ∃ op : Operator, op.char = x := by
        have hall : x = '*' ∨ x = '+' ∨ x = '?' ∨ x = '!' := by simpa using hmem
        rcases hall with rfl | rfl | rfl | rfl
        · exact ⟨.star, rfl⟩
        · exact ⟨.plus, rfl⟩
        · exact ⟨.question, rfl⟩
        · exact ⟨.bang, rfl⟩
      obtain ⟨op, rfl⟩ := hop
      exact ⟨some (.operator op b), hx.cons hb, rfl⟩
    · obtain ⟨s, hread, htree⟩ := h.bounds_settles_some hbounds hm
      exact ⟨some s, hread, htree⟩
  · exact ⟨none, .nil, rfl⟩

/-! ## Phrases -/

omit h in
/-- Where less than some text is left, alternatives are read as such, and no factor follows. -/
def ReadsAlternatives (g : Graph) (p : Parsers) (n : Nat) : Prop :=
  ∀ c t d, c.ahead.length < n → g.settles p.alt c (some (t, d)) →
    ∃ a : Alternatives, c.Reads a.text d ∧ t = a.tree c.position ∧ g.settles p.factor d none

variable (halt : ReadsAlternatives g p n) (hc : c.ahead.length ≤ n)

/-- A reference is read as one. -/
theorem Layout.ref_settles_some (hm : g.settles p.ref c (some (t, d))) :
    ∃ b : Base, c.Reads b.text d ∧ t = b.tree c.position := by
  obtain ⟨angled, opening, closing, href, hangled, hopening, hclosing⟩ := h.ref
  obtain ⟨t, hyields, rfl⟩ := Graph.settles_some href hm
  obtain ⟨id, hid, hm⟩ := hyields.alternation_some
  rw [List.mem_cons, List.mem_singleton] at hid
  rcases hid with rfl | rfl
  · obtain ⟨ts, hparts, rfl⟩ := hangled.settles_some hm
    obtain ⟨t₁, c₁, ts₁, hm₁, hrest₁, rfl⟩ := hparts.cons_eq_some
    obtain ⟨t₂, c₂, ts₂, hm₂, hrest₂, rfl⟩ := hrest₁.cons_eq_some
    obtain ⟨t₃, c₃, ts₃, hm₃, hnil, rfl⟩ := hrest₂.cons_eq_some
    obtain ⟨rfl, rfl⟩ := hnil.nil_eq_some
    obtain ⟨b₁, hr₁, rfl⟩ := hopening.settles_some h.spaces hm₁
    obtain ⟨name, b₂, hr₂, rfl⟩ := h.ident.settles_some h.spaces hm₂
    obtain ⟨b₃, hr₃, rfl⟩ := hclosing.settles_some h.spaces hm₃
    refine ⟨.angled b₁ name b₂ b₃, ?_, ?_⟩
    · rw [Base.text]
      exact hr₁.trans (hr₂.trans hr₃)
    · simp [Base.tree, Tree.spliceAll, Tree.tagged, Tree.withTag, hr₁.position, hr₂.position]
  · obtain ⟨name, b, hr, rfl⟩ := h.ident.settles_some h.spaces hm
    refine ⟨.bare name b, ?_, ?_⟩
    · rw [Base.text]
      exact hr
    · rw [Base.tree]
      rfl

include halt hc

theorem Layout.group_settles_some (hm : g.settles p.group c (some (t, d))) :
    ∃ b : Base, c.Reads b.text d ∧ t = b.tree c.position := by
  obtain ⟨opening, closing, hflat, hopening, hclosing⟩ := h.group
  obtain ⟨ts, hparts, rfl⟩ := hflat.settles_some hm
  obtain ⟨t₁, c₁, ts₁, hm₁, hrest₁, rfl⟩ := hparts.cons_eq_some
  obtain ⟨t₂, c₂, ts₂, hm₂, hrest₂, rfl⟩ := hrest₁.cons_eq_some
  obtain ⟨t₃, c₃, ts₃, hm₃, hnil, rfl⟩ := hrest₂.cons_eq_some
  obtain ⟨rfl, rfl⟩ := hnil.nil_eq_some
  obtain ⟨b₁, hr₁, rfl⟩ := hopening.settles_some h.spaces hm₁
  have hless : c₁.ahead.length < n := by
    have hlength := hr₁.length
    rw [List.length_cons] at hlength
    omega
  obtain ⟨a, hr₂, rfl, -⟩ := halt _ _ _ hless hm₂
  obtain ⟨b₃, hr₃, rfl⟩ := hclosing.settles_some h.spaces hm₃
  refine ⟨.group b₁ a b₃, ?_, ?_⟩
  · rw [Base.text]
    exact hr₁.trans (hr₂.trans hr₃)
  · simp [Base.tree, Tree.spliceAll, hr₁.position, hr₂.position]

/-- What a factor starts with is read as a base. -/
theorem Layout.base_settles_some (hm : g.settles p.base c (some (t, d))) :
    ∃ b : Base, c.Reads b.text d ∧ t = b.tree c.position := by
  obtain ⟨id, hid, hm⟩ := (Graph.settles_anonymous h.base hm).alternation_some
  simp only [List.mem_cons, List.not_mem_nil, or_false] at hid
  rcases hid with rfl | rfl | rfl | rfl | rfl
  · obtain ⟨q, b, hr, rfl⟩ := h.string.settles_some h.spaces hm
    exact ⟨.string q b, by rw [Base.text]; exact hr, by rw [Base.tree]⟩
  · obtain ⟨q, b, hr, rfl⟩ := h.char.settles_some h.spaces hm
    exact ⟨.char q b, by rw [Base.text]; exact hr, by rw [Base.tree]⟩
  · obtain ⟨q, b, hr, rfl⟩ := h.regex.settles_some h.spaces hm
    exact ⟨.regex q b, by rw [Base.text]; exact hr, by rw [Base.tree]⟩
  · exact h.ref_settles_some hm
  · exact h.group_settles_some halt hc hm

theorem Layout.factor_settles_some (hm : g.settles p.factor c (some (t, d))) :
    ∃ f : Factor, c.Reads f.text d ∧ t = f.tree c.position := by
  obtain ⟨ts, hparts, rfl⟩ := h.factor.settles_some hm
  obtain ⟨t₁, c₁, ts₁, hm₁, hrest₁, rfl⟩ := hparts.cons_eq_some
  obtain ⟨t₂, c₂, ts₂, hm₂, hnil, rfl⟩ := hrest₁.cons_eq_some
  obtain ⟨rfl, rfl⟩ := hnil.nil_eq_some
  obtain ⟨base, hr₁, rfl⟩ := h.base_settles_some halt hc hm₁
  obtain ⟨suffix, hr₂, rfl⟩ := h.suffix_settles_some hm₂
  refine ⟨.mk base suffix, ?_, ?_⟩
  · rw [Factor.text]
    exact hr₁.trans hr₂
  · cases suffix <;> simp [Factor.tree, Tree.spliceAll, Tree.splice_empty, hr₁.position]

/-- Factors side by side are read as a sequence, behind which another fails. -/
theorem Layout.seq_settles_some (hm : g.settles p.seq c (some (t, d))) :
    ∃ s : Sequence, c.Reads s.text d ∧ t = s.tree c.position ∧ g.settles p.factor d none := by
  obtain ⟨factors, hseq, hfactors⟩ := h.seq
  obtain ⟨t₁, hyields, rfl⟩ := Graph.settles_some hseq hm
  obtain ⟨t₂, hcall, rfl⟩ := hyields.transform_some
  obtain ⟨ts, hrounds, rfl⟩ := (Graph.settles_anonymous hfactors hcall).repetition_some
  have hall : c.ahead.length ≤ n → ∃ s : Sequence,
      c.Reads s.text d ∧ ts = s.trees c.position ∧ g.settles p.factor d none := by
    refine Rounds.induction (motive := fun c ts d => c.ahead.length ≤ n → ∃ s : Sequence,
      c.Reads s.text d ∧ ts = s.trees c.position ∧ g.settles p.factor d none)
      (fun c hfail _ => ⟨.nil, .nil, by rw [Sequence.trees], hfail⟩) (fun c t ts hstall hc => ?_)
      (fun c t mid ts d hmatch ih hc => ?_) hrounds
    · obtain ⟨f, hread, -⟩ := h.factor_settles_some halt hc hstall
      obtain ⟨x, rest, htext, -⟩ := f.exists_text_eq
      exact absurd rfl (htext ▸ hread).ne
    · obtain ⟨f, hread, rfl⟩ := h.factor_settles_some halt hc hmatch
      obtain ⟨s, hrest, rfl, hfail⟩ := ih (by have := hread.length; omega)
      refine ⟨.cons f s, ?_, ?_, hfail⟩
      · rw [Sequence.text]
        exact hread.trans hrest
      · rw [Sequence.trees, hread.position]
  obtain ⟨s, hread, rfl, hfail⟩ := hall hc
  refine ⟨s, hread, ?_, hfail⟩
  simp [Tree.flatten, Tree.branch, Tree.tagged, Tree.withTag, Sequence.tree]

/-- Sequences with bars are read as such, behind which no factor follows if none did before. -/
theorem Layout.branches_settles_some {next bar : ParserId}
    (hnext : g.node? next = some ⟨none, .sequence [bar, p.seq]⟩)
    (hbar : IsSymbol g p.spaces bar '|') {ts : List Tree}
    (hrounds : Rounds g.settles next 0 none c (some (ts, d)))
    (hfail : g.settles p.factor c none) :
    ∃ b : Branches, c.Reads b.text d ∧ Tree.spliceAll ts = b.trees c.position ∧
      g.settles p.factor d none := by
  -- one round is a bar and a sequence
  have hone : ∀ {c d : Cursor} {t : Tree}, c.ahead.length ≤ n → g.settles next c (some (t, d)) →
      ∃ (b : Blanks) (s : Sequence), c.Reads ('|' :: b.text ++ s.text) d ∧
        t.splice = [symbolTree '|' c.position, s.tree (c.position.after ('|' :: b.text))] ∧
        g.settles p.factor d none := by
    intro c d t hc hm
    obtain ⟨ts, hparts, rfl⟩ := (Graph.settles_anonymous hnext hm).sequence_some
    obtain ⟨t₁, c₁, ts₁, hm₁, hrest₁, rfl⟩ := hparts.cons_eq_some
    obtain ⟨t₂, c₂, ts₂, hm₂, hnil, rfl⟩ := hrest₁.cons_eq_some
    obtain ⟨rfl, rfl⟩ := hnil.nil_eq_some
    obtain ⟨b, hr₁, rfl⟩ := hbar.settles_some h.spaces hm₁
    obtain ⟨s, hr₂, rfl, hfail⟩ := h.seq_settles_some halt (by have := hr₁.length; omega) hm₂
    refine ⟨b, s, hr₁.trans hr₂, ?_, hfail⟩
    simp [Tree.splice_branch, Tree.spliceAll, hr₁.position]
  refine Rounds.induction (motive := fun c ts d => c.ahead.length ≤ n → g.settles p.factor c none →
    ∃ b : Branches, c.Reads b.text d ∧ Tree.spliceAll ts = b.trees c.position ∧
      g.settles p.factor d none)
    (fun c _ _ hfail => ⟨.nil, .nil, by rw [Branches.trees, Tree.spliceAll], hfail⟩)
    (fun c t ts hstall hc _ => ?_) (fun c t mid ts d hmatch ih hc _ => ?_) hrounds hc hfail
  · obtain ⟨b, s, hread, -⟩ := hone hc hstall
    exact absurd rfl hread.ne
  · obtain ⟨b, s, hread, htree, hfail⟩ := hone hc hmatch
    obtain ⟨rest, hrest, htrees, hfail⟩ := ih (by have := hread.length; omega) hfail
    refine ⟨.cons b s rest, ?_, ?_, hfail⟩
    · rw [Branches.text, ← List.append_assoc]
      exact hread.trans hrest
    · rw [Tree.spliceAll, htree, htrees, Branches.trees, hread.position, Position.after_append]
      rfl

omit halt hc in
/-- **Alternatives are read as such**, however much is left. -/
theorem Layout.readsAlternatives (n : Nat) : ReadsAlternatives g p n := by
  induction n with
  | zero => exact fun c t d hc => absurd hc (Nat.not_lt_zero _)
  | succ n halt =>
    intro c t d hc hm
    have hc : c.ahead.length ≤ n := Nat.le_of_lt_succ hc
    obtain ⟨others, next, bar, hflat, hothers, hnext, hbar⟩ := h.body
    obtain ⟨t, hyields, rfl⟩ := Graph.settles_some h.alt hm
    obtain ⟨ts, hparts, rfl⟩ := hflat.settles_some (Kind.Yields.rule_iff.1 hyields)
    obtain ⟨t₁, c₁, ts₁, hm₁, hrest₁, rfl⟩ := hparts.cons_eq_some
    obtain ⟨t₂, c₂, ts₂, hm₂, hnil, rfl⟩ := hrest₁.cons_eq_some
    obtain ⟨rfl, rfl⟩ := hnil.nil_eq_some
    obtain ⟨first, hr₁, rfl, hfail⟩ := h.seq_settles_some halt hc hm₁
    obtain ⟨ts, hrounds, rfl⟩ := (Graph.settles_anonymous hothers hm₂).repetition_some
    obtain ⟨rest, hr₂, htrees, hfail⟩ := h.branches_settles_some halt
      (by have := hr₁.length; omega) hnext hbar hrounds hfail
    refine ⟨.mk first rest, ?_, ?_, hfail⟩
    · rw [Alternatives.text]
      exact hr₁.trans hr₂
    · rw [Alternatives.tree, ← hr₁.position, ← htrees]
      simp only [Tree.spliceAll, Sequence.splice_tree, Tree.splice_branch, List.append_nil]
      rfl

end

/-! ## Statements -/

section

variable {p : Parsers} (h : Layout g p) {input : String} (hc : Cursor.start input ≤ c)
include h

omit hc in
/-- A factor is read as one, however much is left. -/
theorem Layout.factor_some (hm : g.settles p.factor c (some (t, d))) :
    ∃ f : Factor, c.Reads f.text d ∧ t = f.tree c.position :=
  h.factor_settles_some (h.readsAlternatives _) (Nat.le_refl _) hm

/-- Perhaps a label is read. -/
theorem Layout.label_settles_some {optional label : ParserId}
    (hoptional : g.node? optional = some ⟨none, .optional label⟩)
    (hlabel : g.node? label = some ⟨some "label", .transform p.string id⟩)
    (hm : g.settles optional c (some (t, d))) :
    ∃ l : Option Label, c.Reads (l.elim [] Label.text) d ∧
      t = l.elim (.empty c.position) fun l => l.quoted.tree "label|string" c.position := by
  rcases (Graph.settles_anonymous hoptional hm).optional_some with hm | ⟨-, rfl, rfl⟩
  · obtain ⟨t, hyields, rfl⟩ := Graph.settles_some hlabel hm
    obtain ⟨t, hm, rfl⟩ := hyields.transform_some
    obtain ⟨q, b, hread, rfl⟩ := h.string.settles_some h.spaces hm
    exact ⟨some ⟨q, b⟩, hread, rfl⟩
  · exact ⟨none, .nil, rfl⟩

include hc

/-- **A statement is read as one**: where its alternatives end, no factor can end it. -/
theorem Layout.stmt_settles_some (hm : g.settles p.stmt c (some (t, d))) :
    ∃ s : Statement, c.Reads s.text d ∧ t = s.tree c.position := by
  obtain ⟨optional, label, colon, terminator, semicolon, hflat, hoptional, hlabel, hcolon,
    hterminator, hsemicolon⟩ := h.stmt
  obtain ⟨ts, hparts, rfl⟩ := hflat.settles_some hm
  obtain ⟨t₁, c₁, ts₁, hm₁, hrest₁, rfl⟩ := hparts.cons_eq_some
  obtain ⟨t₂, c₂, ts₂, hm₂, hrest₂, rfl⟩ := hrest₁.cons_eq_some
  obtain ⟨t₃, c₃, ts₃, hm₃, hrest₃, rfl⟩ := hrest₂.cons_eq_some
  obtain ⟨t₄, c₄, ts₄, hm₄, hrest₄, rfl⟩ := hrest₃.cons_eq_some
  obtain ⟨t₅, c₅, ts₅, hm₅, hnil, rfl⟩ := hrest₄.cons_eq_some
  obtain ⟨rfl, rfl⟩ := hnil.nil_eq_some
  obtain ⟨name, b₁, hr₁, rfl⟩ := h.ident.settles_some h.spaces hm₁
  obtain ⟨l, hr₂, rfl⟩ := h.label_settles_some hoptional hlabel hm₂
  obtain ⟨b₃, hr₃, rfl⟩ := hcolon.settles_some h.spaces hm₃
  obtain ⟨body, hr₄, rfl, hfail⟩ := h.readsAlternatives _ _ _ _ (Nat.lt_succ_self _) hm₄
  have hr := hr₁.trans (hr₂.trans (hr₃.trans hr₄))
  obtain ⟨id, hid, hm₅⟩ := (Graph.settles_anonymous hterminator hm₅).alternation_some
  rw [List.mem_cons, List.mem_singleton] at hid
  rcases hid with rfl | rfl
  · obtain ⟨b₅, hr₅, rfl⟩ := hsemicolon.settles_some h.spaces hm₅
    refine ⟨⟨name, b₁, l, b₃, body, b₅⟩, hr₁.trans (hr₂.trans (hr₃.trans (hr₄.trans hr₅))), ?_⟩
    cases l <;> simp [Statement.tree, Tree.spliceAll, Tree.splice_empty, Quoted.splice_tree,
      hr₁.position, hr₂.position, hr₃.position, hr₄.position]
  · -- no factor matched where one failed
    cases Graph.settles_offset_eq (Cursor.le_trans hc hr.le) hfail hm₅

/-- Statements side by side are read as such, behind which another fails. -/
theorem Layout.statements_settles_some {statements : ParserId}
    (hstatements : g.node? statements = some ⟨none, .repetition p.stmt 0 none⟩)
    (hm : g.settles statements c (some (t, d))) :
    ∃ l : List Statement, c.Reads (statementsText l) d ∧ t.splice = statementsTrees l c.position ∧
      g.settles p.stmt d none := by
  obtain ⟨ts, hrounds, rfl⟩ := (Graph.settles_anonymous hstatements hm).repetition_some
  rw [Tree.splice_branch]
  refine Rounds.induction (motive := fun c ts d => Cursor.start input ≤ c →
    ∃ l : List Statement, c.Reads (statementsText l) d ∧
      Tree.spliceAll ts = statementsTrees l c.position ∧ g.settles p.stmt d none)
    (fun c hfail _ => ⟨[], .nil, by rw [Tree.spliceAll, statementsTrees], hfail⟩)
    (fun c t ts hstall hc => ?_) (fun c t mid ts d hmatch ih hc => ?_) hrounds hc
  · obtain ⟨s, hread, -⟩ := h.stmt_settles_some hc hstall
    exact absurd rfl hread.ne
  · obtain ⟨s, hread, rfl⟩ := h.stmt_settles_some hc hmatch
    obtain ⟨l, hrest, htrees, hfail⟩ := ih (Cursor.le_trans hc hread.le)
    refine ⟨s :: l, hread.trans hrest, ?_, hfail⟩
    rw [Tree.spliceAll, Statement.splice_tree, htrees, statementsTrees, hread.position]
    rfl

/-- **A grammar is read as one, to the end of the text.** -/
theorem Layout.grammar_settles_some (hm : g.settles p.grammar c (some (t, d))) :
    ∃ s : Source, c.Reads s.text d ∧ d.ahead = [] ∧ t = s.tree c.position := by
  obtain ⟨start, statements, ending, stop, hflat, hstart, hstatements, hending, hstop⟩ := h.grammar
  obtain ⟨ts, hparts, rfl⟩ := hflat.settles_some hm
  obtain ⟨t₁, c₁, ts₁, hm₁, hrest₁, rfl⟩ := hparts.cons_eq_some
  obtain ⟨t₂, c₂, ts₂, hm₂, hrest₂, rfl⟩ := hrest₁.cons_eq_some
  obtain ⟨t₃, c₃, ts₃, hm₃, hrest₃, rfl⟩ := hrest₂.cons_eq_some
  obtain ⟨t₄, c₄, ts₄, hm₄, hnil, rfl⟩ := hrest₃.cons_eq_some
  obtain ⟨rfl, rfl⟩ := hnil.nil_eq_some
  have hstartSpan : ∀ n, Terminal.startOfInput.span c = some n → n = 0 := by
    intro n hn
    rw [Terminal.span] at hn
    split at hn
    · exact (Option.some.inj hn).symm
    · cases hn
  obtain ⟨rfl, rfl, -⟩ := Graph.settles_edge_some hstart hstartSpan hm₁
  obtain ⟨b, hr₂, rfl⟩ := h.spaces.settles_some hm₂
  have hc₂ := Cursor.le_trans hc hr₂.le
  obtain ⟨l, hr₃, htrees, hfail⟩ := h.statements_settles_some hc₂ hstatements hm₃
  obtain ⟨id, hid, hm₄⟩ := (Graph.settles_anonymous hending hm₄).alternation_some
  rw [List.mem_cons, List.mem_singleton] at hid
  rcases hid with rfl | rfl
  · have hstopSpan : ∀ n, Terminal.endOfInput.span c₃ = some n → n = 0 ∧ c₃.ahead = [] := by
      intro n hn
      rw [Terminal.span] at hn
      split at hn
      · next hend => exact ⟨(Option.some.inj hn).symm, List.isEmpty_iff.1 hend⟩
      · cases hn
    obtain ⟨rfl, rfl, hspan⟩ := Graph.settles_edge_some hstop (fun n hn => (hstopSpan n hn).1) hm₄
    refine ⟨⟨b, l⟩, hr₂.trans hr₃, (hstopSpan 0 hspan).2, ?_⟩
    simp [Source.tree, Tree.spliceAll, Tree.splice_empty, htrees, hr₂.position]
  · -- no statement matched where one failed
    cases Graph.settles_offset_eq (Cursor.le_trans hc₂ hr₃.le) hfail hm₄

end

end Grammar.Language

end ParserGraph
