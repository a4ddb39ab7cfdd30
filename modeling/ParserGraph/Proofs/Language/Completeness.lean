import ParserGraph.Proofs.Language.Soundness

/-!
# Completeness — every spaced grammar is read, and as what it is

Where the text of a written phrase is ahead and what follows does not go on
it, the parser of the phrase can come to nothing but the tree of that phrase.
What follows a phrase shows in the character behind it: a factor or a suffix
starts with a character that nothing else starts with, and a sequence ends
where neither follows. Greedy repetition therefore never takes what belongs
to the phrase around it.
-/

namespace ParserGraph

open Grammar.Written

namespace Grammar.Language

variable {g : Graph} {c d : Cursor} {P : Char → Prop} {x : Char}

/-! ## What may follow -/

/-- Whether a character can start a suffix. -/
def startsSuffix (x : Char) : Bool := "*+?!\x7b".toList.contains x

/-- Whether a character can follow alternatives. -/
def endsAlternatives (x : Char) : Bool := ";)".toList.contains x

/-- Whether a character can follow a sequence. -/
def endsSequence (x : Char) : Bool := x = '|' || endsAlternatives x

theorem isBlank_of_isNamePart (h : isNamePart x = true) : isBlank x = false := by
  cases hx : isBlank x with
  | false => rfl
  | true => rw [isNamePart_of_isBlank hx] at h; exact nomatch h

theorem isBlank_of_isDigit (h : x.isDigit = true) : isBlank x = false := by
  cases hx : isBlank x with
  | false => rfl
  | true => rw [isDigit_of_isBlank hx] at h; exact nomatch h

theorem of_startsSuffix (h : startsSuffix x = true) :
    isBlank x = false ∧ isNamePart x = false ∧ startsFactor x = false := by
  have hall : "*+?!\x7b".toList.all
      (fun x => !isBlank x && !isNamePart x && !startsFactor x) = true := by decide
  simpa [and_assoc] using of_contains hall h

theorem of_endsSequence (h : endsSequence x = true) :
    isBlank x = false ∧ isNamePart x = false ∧ startsFactor x = false ∧ startsSuffix x = false := by
  have hall : "|;)".toList.all
      (fun x => !isBlank x && !isNamePart x && !startsFactor x && !startsSuffix x) = true := by
    decide
  have hmem : "|;)".toList.contains x = true := by
    simpa [endsSequence, endsAlternatives] using h
  simpa [and_assoc] using of_contains hall hmem

theorem of_startsFactor (h : startsFactor x = true) :
    isBlank x = false ∧ startsSuffix x = false := by
  have hsuffix : startsSuffix x = false := by
    cases hx : startsSuffix x with
    | false => rfl
    | true => rw [(of_startsSuffix hx).2.2] at h; exact nomatch h
  refine ⟨?_, hsuffix⟩
  rw [startsFactor, Bool.or_eq_true] at h
  rcases h with hmark | hname
  · have hall : "\"'/<(".toList.all (!isBlank ·) = true := by decide
    simpa using of_contains hall hmark
  · exact isBlank_of_isNamePart (isNamePart_of_isNameStart hname)

/-- A number is no blank. -/
theorem Number.clear {n : Number} {text : List Char} (h : c.Reads (n.text ++ text) d) : Clear c :=
  Cursor.Reads.next (show c.Reads (n.first :: (n.others ++ text)) d from h)
    (isBlank_of_isDigit (n.digit n.first List.mem_cons_self))

/-- A name starts with a character that can. -/
theorem Name.next {n : Name} {text : List Char} (h : c.Reads (n.text ++ text) d) :
    c.Next fun x => isNameStart x = true :=
  Cursor.Reads.next (show c.Reads (n.first :: (n.others ++ text)) d from h) n.start

theorem Name.clear {n : Name} {text : List Char} (h : c.Reads (n.text ++ text) d) : Clear c :=
  (Name.next h).imp fun _ hx => isBlank_of_isNamePart (isNamePart_of_isNameStart hx)

/-- A suffix starts with a character that can. -/
theorem Suffix.exists_text_eq (s : Suffix) :
    ∃ x rest, s.text = x :: rest ∧ startsSuffix x = true := by
  cases s with
  | operator op after => exact ⟨op.char, _, rfl, by cases op <;> decide⟩
  | exactly => exact ⟨_, _, rfl, by decide⟩
  | atLeast => exact ⟨_, _, rfl, by decide⟩
  | between => exact ⟨_, _, rfl, by decide⟩

/-- Before what follows a sequence there is a factor, or nothing. -/
theorem Sequence.next {s : Sequence} (h : c.Reads s.text d) (hd : d.Next P)
    (hP : ∀ x, startsFactor x = true → (s.isBare = false → isNamePart x = false) → P x) :
    c.Next P := by
  cases s with
  | nil =>
    rw [Sequence.text] at h
    exact h.eq_of_nil ▸ hd
  | cons first rest =>
    obtain ⟨x, text, htext, hstart, hbare⟩ := first.exists_text_eq
    rw [Sequence.text, htext] at h
    exact h.next (hP x hstart hbare)

/-- Before what follows several sequences there is a bar, or nothing. -/
theorem Branches.next {b : Branches} (h : c.Reads b.text d) (hd : d.Next P) (hP : P '|') :
    c.Next P := by
  cases b with
  | nil =>
    rw [Branches.text] at h
    exact h.eq_of_nil ▸ hd
  | cons bar first rest =>
    rw [Branches.text] at h
    exact h.next hP

/-- Before what follows alternatives there is no blank. -/
theorem Alternatives.clear {a : Alternatives} (h : c.Reads a.text d)
    (hd : d.Next fun x => endsAlternatives x = true) : Clear c := by
  obtain ⟨first, others⟩ := a
  rw [Alternatives.text] at h
  obtain ⟨c₁, hr₁, hr₂⟩ := Cursor.Reads.append_iff.1 h
  have hends : c₁.Next fun x => endsSequence x = true :=
    Branches.next hr₂ (hd.imp fun x hx => by simp [endsSequence, hx]) (by decide)
  exact Sequence.next hr₁ (hends.imp fun x hx => (of_endsSequence hx).1)
    fun x hx _ => (of_startsFactor hx).1

/-- Before what follows statements there is a name, or nothing. -/
theorem clear_statements {l : List Statement} (h : c.Reads (statementsText l) d) (hd : Clear d) :
    Clear c := by
  cases l with
  | nil => exact h.eq_of_nil ▸ hd
  | cons s l =>
    obtain ⟨c₁, hstatement, -⟩ := Cursor.Reads.append_iff.1 h
    obtain ⟨c₂, hname, -⟩ := Cursor.Reads.append_iff.1 hstatement
    exact Name.clear hname

section

variable {p : Parsers} (h : Layout g p)
include h

/-- No factor matches where none can start. -/
theorem Layout.factor_refuses (hc : c.Next fun x => startsFactor x = false) :
    g.settles.Refuses p.factor c := by
  intro m hm
  cases m with
  | none => rfl
  | some r =>
    obtain ⟨f, hread, -⟩ := h.factor_some hm
    obtain ⟨x, rest, htext, hstart, -⟩ := f.exists_text_eq
    have hnot : startsFactor x = false := hc x (htext ▸ hread).peek
    rw [hstart] at hnot
    exact nomatch hnot

/-! ## Suffixes -/

theorem Layout.takes_bounds {bounds : ParserId} (hbounds : IsBounds g p.spaces p.digits bounds)
    {s : Suffix} (hop : ∀ op after, s ≠ .operator op after) (hread : c.Reads s.text d)
    (hd : Clear d) :
    ∃ t, g.settles.Takes bounds c t d ∧ t.tagged "suffix" = s.tree c.position := by
  obtain ⟨opening, tail, closing, more, comma, upper, hflat, hopening, htail, hmore, hcomma, hupper,
    hclosing⟩ := hbounds
  have hcommaNext : ∀ {c d : Cursor} {text : List Char}, c.Reads (',' :: text) d →
      Clear c ∧ c.Next fun x => x.isDigit = false :=
    fun h => ⟨h.next (by decide), h.next (by decide)⟩
  have hclosingNext : ∀ {c d : Cursor} {text : List Char}, c.Reads ('\x7d' :: text) d →
      Clear c ∧ (c.Next fun x => x.isDigit = false) ∧ c.Next (· ≠ ',') :=
    fun h => ⟨h.next (by decide), h.next (by decide), h.next (by decide)⟩
  cases s with
  | operator op after => exact absurd rfl (hop op after)
  | exactly b₁ n b₂ b₄ =>
    obtain ⟨c₁, hr₁, hread⟩ := Cursor.Reads.append_iff.1 hread
    obtain ⟨c₂, hr₂, hr₄⟩ := Cursor.Reads.append_iff.1 hread
    obtain ⟨hclear, hdigit, hcommaNone⟩ := hclosingNext hr₄
    have htail : g.settles.Takes tail c₂ (.empty c₂.position) c₂ :=
      Graph.takes_of_yields htail fun m => Kind.Yields.optional_empty
        (Graph.refuses_of_yields hmore fun m => Kind.Yields.sequence_none
          (hcomma.refuses hcommaNone))
    refine ⟨_, hflat.takes (.cons (hopening.takes h.spaces hr₁ (Number.clear hr₂))
      (.cons (h.digits.takes h.spaces hr₂ hclear hdigit)
        (.cons htail (.cons (hclosing.takes h.spaces hr₄ hd) .nil)))), ?_⟩
    simp [Suffix.tree, Tree.spliceAll, Tree.splice_empty, Tree.tagged, Tree.withTag,
      hr₁.position, hr₂.position]
  | atLeast b₁ n b₂ b₃ b₄ =>
    obtain ⟨c₁, hr₁, hread⟩ := Cursor.Reads.append_iff.1 hread
    obtain ⟨c₂, hr₂, hread⟩ := Cursor.Reads.append_iff.1 hread
    obtain ⟨c₃, hr₃, hr₄⟩ := Cursor.Reads.append_iff.1 hread
    obtain ⟨hclear, hdigit⟩ := hcommaNext hr₃
    obtain ⟨hclear', hdigit', -⟩ := hclosingNext hr₄
    have hupper : g.settles.Takes upper c₃ (.empty c₃.position) c₃ :=
      Graph.takes_of_yields hupper fun m => Kind.Yields.optional_empty (h.digits.refuses hdigit')
    have hmore : g.settles.Takes more c₂
        (.branch [symbolTree ',' c₂.position, .empty c₃.position] c₂.position) c₃ :=
      Graph.takes_of_yields hmore fun m => Kind.Yields.sequence_eq
        (.cons (hcomma.takes h.spaces hr₃ hclear') (.cons hupper .nil))
    have htail := Graph.takes_of_yields htail fun m => Kind.Yields.optional_eq hmore
    refine ⟨_, hflat.takes (.cons (hopening.takes h.spaces hr₁ (Number.clear hr₂))
      (.cons (h.digits.takes h.spaces hr₂ hclear hdigit)
        (.cons htail (.cons (hclosing.takes h.spaces hr₄ hd) .nil)))), ?_⟩
    simp [Suffix.tree, Tree.spliceAll, Tree.splice_branch, Tree.splice_empty, Tree.tagged,
      Tree.withTag, hr₁.position, hr₂.position, hr₃.position]
  | between b₁ low b₂ b₃ high b₅ b₄ =>
    obtain ⟨c₁, hr₁, hread⟩ := Cursor.Reads.append_iff.1 hread
    obtain ⟨c₂, hr₂, hread⟩ := Cursor.Reads.append_iff.1 hread
    obtain ⟨c₃, hr₃, hread⟩ := Cursor.Reads.append_iff.1 hread
    obtain ⟨c₄, hr₅, hr₄⟩ := Cursor.Reads.append_iff.1 hread
    obtain ⟨hclear, hdigit⟩ := hcommaNext hr₃
    obtain ⟨hclear', hdigit', -⟩ := hclosingNext hr₄
    have hupper := Graph.takes_of_yields hupper fun m => Kind.Yields.optional_eq
      (h.digits.takes h.spaces hr₅ hclear' hdigit')
    have hmore : g.settles.Takes more c₂
        (.branch [symbolTree ',' c₂.position, high.tree c₃.position] c₂.position) c₄ :=
      Graph.takes_of_yields hmore fun m => Kind.Yields.sequence_eq
        (.cons (hcomma.takes h.spaces hr₃ (Number.clear hr₅)) (.cons hupper .nil))
    have htail := Graph.takes_of_yields htail fun m => Kind.Yields.optional_eq hmore
    refine ⟨_, hflat.takes (.cons (hopening.takes h.spaces hr₁ (Number.clear hr₂))
      (.cons (h.digits.takes h.spaces hr₂ hclear hdigit)
        (.cons htail (.cons (hclosing.takes h.spaces hr₄ hd) .nil)))), ?_⟩
    simp [Suffix.tree, Tree.spliceAll, Tree.splice_branch, Tree.tagged, Tree.withTag,
      hr₁.position, hr₂.position, hr₃.position, hr₅.position]

/-- A suffix is taken. -/
theorem Layout.takes_suffix {s : Suffix} (hread : c.Reads s.text d) (hd : Clear d) :
    g.settles.Takes p.suffix c (s.tree c.position) d := by
  obtain ⟨given, operator, one, bounds, hsuffix, hgiven, hoperator, hone, hbounds⟩ := h.suffix
  have hgivenTakes : g.settles.Takes given c (s.tree c.position) d := by
    by_cases hop : ∃ op after, s = .operator op after
    · obtain ⟨op, after, rfl⟩ := hop
      obtain ⟨mid, hx, hb⟩ := Cursor.Reads.cons_iff.1 hread
      have hchar : "*+?!".toList.contains op.char = true := by cases op <;> decide
      exact Graph.takes_of_yields hgiven fun m => Kind.Yields.alternation_eq
        (.here (hoperator.takes h.spaces (Graph.takes_one hone (fun _ => rfl) hx hchar) hb hd))
    · have hne : ∀ op after, s ≠ .operator op after := fun op after he => hop ⟨op, after, he⟩
      have hbrace : c.Next fun x => "*+?!".toList.contains x = false := by
        cases s with
        | operator op after => exact absurd rfl (hne op after)
        | _ => exact hread.next (by decide)
      obtain ⟨t, ht, htree⟩ := h.takes_bounds hbounds hne hread hd
      have htakes := Graph.takes_of_yields hgiven fun m => Kind.Yields.alternation_eq
        (.later (hoperator.refuses (Graph.refuses_one hone (fun _ => rfl) hbrace)) (.here ht))
      rw [Option.elim, htree] at htakes
      exact htakes
  exact Graph.takes_of_yields hsuffix fun m => Kind.Yields.optional_eq hgivenTakes

/-- Where no suffix starts, none is taken. -/
theorem Layout.takes_no_suffix (hc : c.Next fun x => startsSuffix x = false) :
    g.settles.Takes p.suffix c (.empty c.position) c := by
  obtain ⟨given, operator, one, bounds, hsuffix, hgiven, hoperator, hone, hbounds⟩ := h.suffix
  obtain ⟨opening, tail, closing, more, comma, upper, hbounds, hopening, -⟩ := hbounds
  have hoperatorRefuses : g.settles.Refuses operator c :=
    hoperator.refuses (Graph.refuses_one hone (fun _ => rfl) (hc.imp fun x hx => by
      simp [startsSuffix] at hx
      simp [hx]))
  have hboundsRefuses : g.settles.Refuses bounds c :=
    hbounds.refuses (hopening.refuses (hc.imp fun x hx => by
      rintro rfl
      exact absurd hx (by decide)))
  refine Graph.takes_of_yields hsuffix fun m => Kind.Yields.optional_empty
    (Graph.refuses_of_yields hgiven fun m => Kind.Yields.alternation_none fun id hid => ?_)
  rw [List.mem_cons, List.mem_singleton] at hid
  rcases hid with rfl | rfl
  · exact hoperatorRefuses
  · exact hboundsRefuses

/-! ## Factors and what they start with -/

/-- A reference is taken, before what does not go on its name. -/
theorem Layout.takes_angled {b₁ b₂ b₃ : Blanks} {name : Name}
    (hread : c.Reads (Base.angled b₁ name b₂ b₃).text d) (hd : Clear d) :
    g.settles.Takes p.ref c ((Base.angled b₁ name b₂ b₃).tree c.position) d := by
  obtain ⟨angled, opening, closing, href, hangled, hopening, hclosing⟩ := h.ref
  rw [Base.text] at hread
  obtain ⟨c₁, hr₁, hread⟩ := Cursor.Reads.append_iff.1 hread
  obtain ⟨c₂, hr₂, hr₃⟩ := Cursor.Reads.append_iff.1 hread
  have htakes := Graph.takes_of_yields href fun m => Kind.Yields.alternation_eq
    (.here (hangled.takes (.cons (hopening.takes h.spaces hr₁ (Name.clear hr₂))
      (.cons (h.ident.takes h.spaces hr₂ (hr₃.next (by decide)) fun _ => hr₃.next (by decide))
        (.cons (hclosing.takes h.spaces hr₃ hd) .nil)))))
  have htree : (Base.angled b₁ name b₂ b₃).tree c.position = ⟨"ref", "", c.position,
      [symbolTree '<' c.position, name.tree c₁.position, symbolTree '>' c₂.position]⟩ := by
    simp only [Base.tree, hr₁.position, hr₂.position]
  rw [htree]
  simpa [Tree.spliceAll, Tree.tagged, Tree.withTag] using htakes

theorem Layout.takes_bare {name : Name} {b : Blanks} (hread : c.Reads (name.text ++ b.text) d)
    (hd : Clear d) (hname : b.text = [] → d.Next fun x => isNamePart x = false) :
    g.settles.Takes p.ref c ((Base.bare name b).tree c.position) d := by
  obtain ⟨angled, opening, closing, href, hangled, hopening, hclosing⟩ := h.ref
  have hangle : c.Next (· ≠ '<') := by
    refine (Name.next hread).imp fun x hx => ?_
    rintro rfl
    exact absurd hx (by decide)
  rw [Base.tree]
  exact Graph.takes_of_yields href fun m => Kind.Yields.alternation_eq
    (.later (hangled.refuses (hopening.refuses hangle))
      (.here (h.ident.takes h.spaces hread hd hname)))

theorem Layout.ref_refuses (hc : c.Next fun x => x ≠ '<' ∧ isNameStart x = false) :
    g.settles.Refuses p.ref c := by
  obtain ⟨angled, opening, closing, href, hangled, hopening, hclosing⟩ := h.ref
  refine Graph.refuses_of_yields href fun m => Kind.Yields.alternation_none fun id hid => ?_
  rw [List.mem_cons, List.mem_singleton] at hid
  rcases hid with rfl | rfl
  · exact hangled.refuses (hopening.refuses (hc.imp fun x hx => hx.1))
  · exact h.ident.refuses (hc.imp fun x hx => hx.2)

/-- What no quoted text starts is left to references and groups. -/
theorem Layout.takes_unquoted {t : Tree} (hc : c.Next fun x => x ≠ '"' ∧ x ≠ '\'' ∧ x ≠ '/')
    (ht : g.settles.TakesFirst [p.ref, p.group] c t d) : g.settles.Takes p.base c t d :=
  Graph.takes_of_yields h.base fun _ => Kind.Yields.alternation_eq
    (.later (h.string.refuses (hc.imp fun _ hx => hx.1))
      (.later (h.char.refuses (hc.imp fun _ hx => hx.2.1))
        (.later (h.regex.refuses (hc.imp fun _ hx => hx.2.2)) ht)))

/-- A sequence is taken where its factors are. -/
theorem Layout.takes_seq {s : Sequence}
    (hrounds : ∀ m, Rounds g.settles p.factor 0 none c m → m = some (s.trees c.position, d)) :
    g.settles.Takes p.seq c (s.tree c.position) d := by
  obtain ⟨factors, hseq, hfactors⟩ := h.seq
  have htakes := Graph.takes_of_yields hseq fun m => Kind.Yields.transform_eq
    (Graph.takes_of_yields hfactors fun m => Kind.Yields.repetition_eq hrounds)
  simpa [Tree.flatten, Tree.branch, Tree.tagged, Tree.withTag, Sequence.tree] using htakes

end

mutual

theorem Layout.takes_base {p : Parsers} (h : Layout g p) : ∀ (b : Base) {c d : Cursor}, b.Spaced →
    c.Reads b.text d → Clear d →
    (∀ name after, b = .bare name after → after.text = [] → d.Next fun x => isNamePart x = false) →
    g.settles.Takes p.base c (b.tree c.position) d
  | .string q after, c, d, _, hread, hd, _ => by
    rw [Base.text] at hread
    rw [Base.tree]
    exact Graph.takes_of_yields h.base fun m => Kind.Yields.alternation_eq
      (.here (h.string.takes h.spaces (by decide) hread hd))
  | .char q after, c, d, _, hread, hd, _ => by
    rw [Base.text] at hread
    rw [Base.tree]
    exact Graph.takes_of_yields h.base fun m => Kind.Yields.alternation_eq
      (.later (h.string.refuses (hread.next (by decide)))
        (.here (h.char.takes h.spaces (by decide) hread hd)))
  | .regex q after, c, d, _, hread, hd, _ => by
    rw [Base.text] at hread
    rw [Base.tree]
    exact Graph.takes_of_yields h.base fun m => Kind.Yields.alternation_eq
      (.later (h.string.refuses (hread.next (by decide)))
        (.later (h.char.refuses (hread.next (by decide)))
          (.here (h.regex.takes h.spaces (by decide) hread hd))))
  | .angled b₁ name b₂ b₃, c, d, _, hread, hd, _ => by
    have hopening : c.Next fun x => x ≠ '"' ∧ x ≠ '\'' ∧ x ≠ '/' := by
      rw [Base.text] at hread
      exact hread.next (by decide)
    exact h.takes_unquoted hopening (.here (h.takes_angled hread hd))
  | .bare name b, c, d, _, hread, hd, hname => by
    rw [Base.text] at hread
    have hopening : c.Next fun x => x ≠ '"' ∧ x ≠ '\'' ∧ x ≠ '/' := by
      refine (Name.next hread).imp fun x hx => ⟨?_, ?_, ?_⟩ <;> rintro rfl <;>
        exact absurd hx (by decide)
    exact h.takes_unquoted hopening (.here (h.takes_bare hread hd (hname name b rfl)))
  | .group b₁ a b₃, c, d, hspaced, hread, hd, _ => by
    rw [Base.text] at hread
    rw [Base.Spaced] at hspaced
    obtain ⟨opening, closing, hflat, hopening, hclosing⟩ := h.group
    have hnext : c.Next fun x => (x ≠ '"' ∧ x ≠ '\'' ∧ x ≠ '/') ∧ x ≠ '<' ∧ isNameStart x = false :=
      hread.next (by decide)
    obtain ⟨c₁, hr₁, hread⟩ := Cursor.Reads.append_iff.1 hread
    obtain ⟨c₂, hr₂, hr₃⟩ := Cursor.Reads.append_iff.1 hread
    have hends : c₂.Next fun x => endsAlternatives x = true := hr₃.next (by decide)
    have htakes := hflat.takes (.cons (hopening.takes h.spaces hr₁ (Alternatives.clear hr₂ hends))
      (.cons (h.takes_alternatives a hspaced hr₂ hends)
        (.cons (hclosing.takes h.spaces hr₃ hd) .nil)))
    have htree : (Base.group b₁ a b₃).tree c.position = ⟨"group", "", c.position,
        [symbolTree '(' c.position, a.tree c₁.position, symbolTree ')' c₂.position]⟩ := by
      simp only [Base.tree, hr₁.position, hr₂.position]
    rw [htree]
    refine h.takes_unquoted (hnext.imp fun x hx => hx.1)
      (.later (h.ref_refuses (hnext.imp fun x hx => hx.2)) (.here ?_))
    simpa [Tree.spliceAll] using htakes

/-- A factor is taken, before what is neither a suffix nor goes on its name. -/
theorem Layout.takes_factor {p : Parsers} (h : Layout g p) : ∀ (f : Factor) {c d : Cursor},
    f.Spaced → c.Reads f.text d → Clear d → (d.Next fun x => startsSuffix x = false) →
    (f.isOpen = true → d.Next fun x => isNamePart x = false) →
    g.settles.Takes p.factor c (f.tree c.position) d
  | .mk base suffix, c, d, hspaced, hread, hd, hsuffix, hname => by
    rw [Factor.text] at hread
    rw [Factor.Spaced] at hspaced
    obtain ⟨c₁, hr₁, hr₂⟩ := Cursor.Reads.append_iff.1 hread
    cases suffix with
    | none =>
      cases hr₂.eq_of_nil
      have hbase := h.takes_base base hspaced hr₁ hd fun name after he hnil => by
        subst he
        exact hname (List.isEmpty_iff.2 hnil)
      have htakes := h.factor.takes (.cons hbase (.cons (h.takes_no_suffix hsuffix) .nil))
      simpa [Factor.tree, Tree.spliceAll, Tree.splice_empty] using htakes
    | some s =>
      obtain ⟨x, rest, htext, hx⟩ := Suffix.exists_text_eq s
      have hr₂ : c₁.Reads s.text d := hr₂
      have hnext : c₁.Next fun x => isBlank x = false ∧ isNamePart x = false :=
        Cursor.Reads.next (htext ▸ hr₂) ⟨(of_startsSuffix hx).1, (of_startsSuffix hx).2.1⟩
      have hbase := h.takes_base base hspaced hr₁ (hnext.imp fun x hx => hx.1)
        fun _ _ _ _ => hnext.imp fun x hx => hx.2
      have htakes := h.factor.takes (.cons hbase (.cons (h.takes_suffix hr₂ hd) .nil))
      simpa [Factor.tree, Tree.spliceAll, hr₁.position] using htakes

/-- The factors of a sequence are taken, before what ends it. -/
theorem Layout.takes_factors {p : Parsers} (h : Layout g p) : ∀ (s : Sequence) {c d : Cursor},
    s.Spaced → c.Reads s.text d → (d.Next fun x => endsSequence x = true) →
    ∀ m, Rounds g.settles p.factor 0 none c m → m = some (s.trees c.position, d)
  | .nil, c, d, _, hread, hd, m, hm => by
    rw [Sequence.text] at hread
    cases hread.eq_of_nil
    rw [Sequence.trees]
    exact hm.of_refuses (h.factor_refuses (hd.imp fun x hx => (of_endsSequence hx).2.2.1))
  | .cons first rest, c, d, hspaced, hread, hd, m, hm => by
    rw [Sequence.text] at hread
    rw [Sequence.Spaced] at hspaced
    obtain ⟨hfirst, hrest, hopen⟩ := hspaced
    obtain ⟨c₁, hr₁, hr₂⟩ := Cursor.Reads.append_iff.1 hread
    have hnext : c₁.Next fun x => isBlank x = false ∧ startsSuffix x = false ∧
        (first.isOpen = true → isNamePart x = false) :=
      Sequence.next hr₂
        (hd.imp fun x hx => ⟨(of_endsSequence hx).1, (of_endsSequence hx).2.2.2,
          fun _ => (of_endsSequence hx).2.1⟩)
        fun x hx hbare => ⟨(of_startsFactor hx).1, (of_startsFactor hx).2,
          fun hfirst => hbare (hopen hfirst)⟩
    have htakes := h.takes_factor first hfirst hr₁ (hnext.imp fun x hx => hx.1)
      (hnext.imp fun x hx => hx.2.1) fun hfirst => hnext.imp fun x hx => hx.2.2 hfirst
    obtain ⟨y, text, htext, -⟩ := first.exists_text_eq
    obtain ⟨m', hm', rfl⟩ := hm.of_takes htakes (htext ▸ hr₁).ne
    rw [h.takes_factors rest hrest hr₂ hd m' hm', Sequence.trees, ← hr₁.position]
    rfl

/-- Sequences with bars are taken, before what ends alternatives. -/
theorem Layout.takes_branches {p : Parsers} (h : Layout g p) {next bar : ParserId}
    (hnext : g.node? next = some ⟨none, .sequence [bar, p.seq]⟩)
    (hbar : IsSymbol g p.spaces bar '|') : ∀ (b : Branches) {c d : Cursor},
    b.Spaced → c.Reads b.text d → (d.Next fun x => endsAlternatives x = true) →
    ∃ ts, (∀ m, Rounds g.settles next 0 none c m → m = some (ts, d)) ∧
      Tree.spliceAll ts = b.trees c.position
  | .nil, c, d, _, hread, hd => by
    rw [Branches.text] at hread
    cases hread.eq_of_nil
    have hrefuses : g.settles.Refuses next c :=
      Graph.refuses_of_yields hnext fun m => Kind.Yields.sequence_none
        (hbar.refuses (hd.imp fun x hx => by
          rintro rfl
          exact absurd hx (by decide)))
    exact ⟨[], fun m hm => hm.of_refuses hrefuses, by rw [Tree.spliceAll, Branches.trees]⟩
  | .cons b first rest, c, d, hspaced, hread, hd => by
    rw [Branches.text] at hread
    rw [Branches.Spaced] at hspaced
    obtain ⟨c₁, hr₁, hread⟩ := Cursor.Reads.append_iff.1 hread
    obtain ⟨c₂, hr₂, hr₃⟩ := Cursor.Reads.append_iff.1 hread
    have hends : c₂.Next fun x => endsSequence x = true :=
      Branches.next hr₃ (hd.imp fun x hx => by simp [endsSequence, hx]) (by decide)
    have hclear : Clear c₁ := Sequence.next hr₂ (hends.imp fun x hx => (of_endsSequence hx).1)
      fun x hx _ => (of_startsFactor hx).1
    have htakes : g.settles.Takes next c
        (.branch [symbolTree '|' c.position, first.tree c₁.position] c.position) c₂ :=
      Graph.takes_of_yields hnext fun m => Kind.Yields.sequence_eq
        (.cons (hbar.takes h.spaces hr₁ hclear)
          (.cons (h.takes_seq (h.takes_factors first hspaced.1 hr₂ hends)) .nil))
    obtain ⟨ts, hts, htrees⟩ := h.takes_branches hnext hbar rest hspaced.2 hr₃ hd
    refine ⟨.branch [symbolTree '|' c.position, first.tree c₁.position] c.position :: ts,
      fun m hm => ?_, ?_⟩
    · obtain ⟨m', hm', rfl⟩ := hm.of_takes htakes (hr₁.trans hr₂).ne
      rw [hts m' hm']
      rfl
    · rw [Tree.spliceAll, htrees, Branches.trees, ← hr₁.position, ← hr₂.position]
      simp only [Tree.spliceAll, Tree.splice_branch, Sequence.splice_tree, splice_symbolTree,
        List.append_nil]
      rfl

/-- **Alternatives are taken**, before what ends them. -/
theorem Layout.takes_alternatives {p : Parsers} (h : Layout g p) :
    ∀ (a : Alternatives) {c d : Cursor}, a.Spaced → c.Reads a.text d →
    (d.Next fun x => endsAlternatives x = true) → g.settles.Takes p.alt c (a.tree c.position) d
  | .mk first others, c, d, hspaced, hread, hd => by
    rw [Alternatives.text] at hread
    rw [Alternatives.Spaced] at hspaced
    obtain ⟨othersId, next, bar, hflat, hothers, hnext, hbar⟩ := h.body
    obtain ⟨c₁, hr₁, hr₂⟩ := Cursor.Reads.append_iff.1 hread
    have hends : c₁.Next fun x => endsSequence x = true :=
      Branches.next hr₂ (hd.imp fun x hx => by simp [endsSequence, hx]) (by decide)
    obtain ⟨ts, hts, htrees⟩ := h.takes_branches hnext hbar others hspaced.2 hr₂ hd
    have hbody := hflat.takes (.cons (h.takes_seq (h.takes_factors first hspaced.1 hr₁ hends))
      (.cons (Graph.takes_of_yields hothers fun m => Kind.Yields.repetition_eq hts) .nil))
    have hchildren : Tree.spliceAll [first.tree c.position, .branch ts c₁.position] =
        first.tree c.position :: Tree.spliceAll ts := by
      simp [Tree.spliceAll, Tree.splice_branch]
    have htakes := Graph.takes_of_yields h.alt fun m hm => hbody m (Kind.Yields.rule_iff.1 hm)
    have htree : (Alternatives.mk first others).tree c.position = ⟨"alt", "", c.position,
        Tree.spliceAll [first.tree c.position, .branch ts c₁.position]⟩ := by
      rw [hchildren, Alternatives.tree, ← hr₁.position, ← htrees]
      rfl
    rw [htree]
    exact htakes

end

/-! ## Statements -/

section

variable {p : Parsers} (h : Layout g p)
include h

/-- A label is taken, or none where none starts. -/
theorem Layout.takes_label {optional label : ParserId}
    (hoptional : g.node? optional = some ⟨none, .optional label⟩)
    (hlabel : g.node? label = some ⟨some "label", .transform p.string id⟩) {l : Option Label}
    (hread : c.Reads (l.elim [] Label.text) d) (hd : Clear d) (hquote : d.Next (· ≠ '"')) :
    g.settles.Takes optional c
      (l.elim (.empty c.position) fun l => l.quoted.tree "label|string" c.position) d := by
  cases l with
  | none =>
    cases hread.eq_of_nil
    exact Graph.takes_of_yields hoptional fun m => Kind.Yields.optional_empty
      (Graph.refuses_of_yields hlabel fun m => Kind.Yields.transform_none
        (h.string.refuses hquote))
  | some l =>
    exact Graph.takes_of_yields hoptional fun m => Kind.Yields.optional_eq
      (Graph.takes_of_yields hlabel fun m => Kind.Yields.transform_eq
        (h.string.takes h.spaces (by decide) hread hd))

/-- **A statement is taken.** -/
theorem Layout.takes_stmt {s : Statement} (hspaced : s.body.Spaced) (hread : c.Reads s.text d)
    (hd : Clear d) : g.settles.Takes p.stmt c (s.tree c.position) d := by
  obtain ⟨optional, label, colon, terminator, semicolon, hflat, hoptional, hlabel, hcolon,
    hterminator, hsemicolon⟩ := h.stmt
  obtain ⟨c₁, hr₁, hread⟩ := Cursor.Reads.append_iff.1 hread
  obtain ⟨c₂, hr₂, hread⟩ := Cursor.Reads.append_iff.1 hread
  obtain ⟨c₃, hr₃, hread⟩ := Cursor.Reads.append_iff.1 hread
  obtain ⟨c₄, hr₄, hr₅⟩ := Cursor.Reads.append_iff.1 hread
  -- behind the name there is the mark of a label, or the colon
  have hnext₁ : c₁.Next fun x => isBlank x = false ∧ isNamePart x = false := by
    cases hl : s.label with
    | none =>
      rw [hl] at hr₂
      cases hr₂.eq_of_nil
      exact hr₃.next (by decide)
    | some l =>
      rw [hl] at hr₂
      exact Cursor.Reads.next (show c₁.Reads ('"' :: _) c₂ from hr₂) (by decide)
  have hends : c₄.Next fun x => endsAlternatives x = true := hr₅.next (by decide)
  have hname := h.ident.takes h.spaces hr₁ (hnext₁.imp fun x hx => hx.1)
    fun _ => hnext₁.imp fun x hx => hx.2
  have hlabelTakes := h.takes_label hoptional hlabel hr₂ (hr₃.next (by decide))
    (hr₃.next (by decide))
  have hcolonTakes := hcolon.takes h.spaces hr₃ (Alternatives.clear hr₄ hends)
  have hbody := h.takes_alternatives s.body hspaced hr₄ hends
  have hend := Graph.takes_of_yields hterminator fun m => Kind.Yields.alternation_eq
    (.here (hsemicolon.takes h.spaces hr₅ hd))
  have htakes := hflat.takes
    (.cons hname (.cons hlabelTakes (.cons hcolonTakes (.cons hbody (.cons hend .nil)))))
  have htree : s.tree c.position = ⟨"stmt", "", c.position,
      Tree.spliceAll [s.name.tree c.position,
        s.label.elim (.empty c₁.position) fun l => l.quoted.tree "label|string" c₁.position,
        symbolTree ':' c₂.position, s.body.tree c₃.position, symbolTree ';' c₄.position]⟩ := by
    cases hl : s.label <;> simp [Statement.tree, hl, Tree.spliceAll, Tree.splice_empty,
      Quoted.splice_tree, hr₁.position, hr₂.position, hr₃.position, hr₄.position]
  rw [htree]
  exact htakes

theorem Layout.stmt_refuses (hc : c.Next fun x => isNameStart x = false) :
    g.settles.Refuses p.stmt c := by
  obtain ⟨optional, label, colon, terminator, semicolon, hflat, -⟩ := h.stmt
  exact hflat.refuses (h.ident.refuses hc)

/-- Statements are taken to the end of the text. -/
theorem Layout.takes_statements {l : List Statement} (hspaced : ∀ s ∈ l, s.body.Spaced)
    (hread : c.Reads (statementsText l) d) (hd : d.peek = none) :
    ∀ m, Rounds g.settles p.stmt 0 none c m → m = some (statementsTrees l c.position, d) := by
  have hnone : ∀ P : Char → Prop, d.Next P := fun P x hx => nomatch hd.symm.trans hx
  induction l generalizing c with
  | nil =>
    intro m hm
    cases hread.eq_of_nil
    exact hm.of_refuses (h.stmt_refuses (hnone _))
  | cons s l ih =>
    intro m hm
    obtain ⟨c₁, hr₁, hr₂⟩ := Cursor.Reads.append_iff.1 hread
    have htakes := h.takes_stmt (hspaced s List.mem_cons_self) hr₁ (clear_statements hr₂ (hnone _))
    obtain ⟨m', hm', rfl⟩ := hm.of_takes htakes (Cursor.Reads.ne hr₁)
    rw [ih (fun s hs => hspaced s (List.mem_cons_of_mem _ hs)) hr₂ m' hm', statementsTrees,
      ← hr₁.position]
    rfl

/-- **A whole grammar is taken.** -/
theorem Layout.takes_grammar {s : Source} (hspaced : s.Spaced) (hc : c.behind = [])
    (hread : c.Reads s.text d) (hd : d.ahead = []) :
    g.settles.Takes p.grammar c (s.tree c.position) d := by
  obtain ⟨start, statements, ending, stop, hflat, hstart, hstatements, hending, hstop⟩ := h.grammar
  obtain ⟨c₁, hr₁, hr₂⟩ := Cursor.Reads.append_iff.1 hread
  have hpeek : d.peek = none := by rw [Cursor.peek, hd]; rfl
  have hclear : Clear c₁ := clear_statements hr₂ fun x hx =>
    absurd (hpeek.symm.trans hx) (Option.some_ne_none x).symm
  have hstartSpan : Terminal.startOfInput.span c = some 0 := by rw [Terminal.span, hc]; rfl
  have hstopSpan : Terminal.endOfInput.span d = some 0 := by rw [Terminal.span, hd]; rfl
  have hstatementsTakes := Graph.takes_of_yields hstatements fun m =>
    Kind.Yields.repetition_eq (h.takes_statements hspaced hr₂ hpeek)
  have hendingTakes := Graph.takes_of_yields hending fun m => Kind.Yields.alternation_eq
    (.here (Graph.takes_edge hstop hstopSpan))
  have htakes := hflat.takes (.cons (Graph.takes_edge hstart hstartSpan)
    (.cons (h.spaces.takes hr₁ hclear) (.cons hstatementsTakes (.cons hendingTakes .nil))))
  have htree : s.tree c.position = ⟨"grammar", "", c.position, Tree.spliceAll
      [.empty c.position, .empty c.position,
        .branch (statementsTrees s.statements c₁.position) c₁.position, .empty d.position]⟩ := by
    simp [Source.tree, Tree.spliceAll, Tree.splice_empty, Tree.splice_branch, hr₁.position]
  rw [htree]
  exact htakes

end

end Grammar.Language

end ParserGraph
