import Mathlib
import ParserGraph.Proofs.Grammar.Laws
import ParserGraph.Proofs.Language.Definitions

/-!
# Rewriting — grammars that are written differently and say the same

Parentheses around a sequence in a sequence, or around an alternation in an
alternation, may be left out, and once or more may be written out; blanks may
be put anywhere (`Source.Rewrites`). What a grammar states is then the same in
canonical form (`Source.Rewrites.agree`), or both grammars are at fault. So
rewriting a grammar, here and there and as often as one likes, changes neither
whether it is accepted nor what its rules match and report
(`compile_rewritten`).
-/

namespace ParserGraph.Grammar

namespace Written

/-! ## What may be rewritten -/

/-- A suffix with other blanks. -/
inductive Suffix.Respaced : Suffix → Suffix → Prop
  | operator {op : Operator} {after after' : Blanks} :
      Respaced (.operator op after) (.operator op after')
  | exactly {n : Number} {o a c o' a' c' : Blanks} :
      Respaced (.exactly o n a c) (.exactly o' n a' c')
  | atLeast {n : Number} {o a m c o' a' m' c' : Blanks} :
      Respaced (.atLeast o n a m c) (.atLeast o' n a' m' c')
  | between {low high : Number} {o a m b c o' a' m' b' c' : Blanks} :
      Respaced (.between o low a m high b c) (.between o' low a' m' high b' c')

/-- One sequence after another. -/
def Sequence.append : Sequence → Sequence → Sequence
  | .nil, s => s
  | .cons first rest, s => .cons first (rest.append s)

/-- Further branches after some. -/
def Branches.append : Branches → Branches → Branches
  | .nil, b => b
  | .cons bar first rest, b => .cons bar first (rest.append b)

mutual

/-- A base is rewritten inside a group, and nowhere else. -/
inductive Base.Rewrites (unrolled : Bool) : Base → Base → Prop
  | string {q : Quoted '"'} {after after' : Blanks} :
      Base.Rewrites unrolled (.string q after) (.string q after')
  | char {q : Quoted '\''} {after after' : Blanks} :
      Base.Rewrites unrolled (.char q after) (.char q after')
  | regex {q : Quoted '/'} {after after' : Blanks} :
      Base.Rewrites unrolled (.regex q after) (.regex q after')
  | angled {name : Name} {o a c o' a' c' : Blanks} :
      Base.Rewrites unrolled (.angled o name a c) (.angled o' name a' c')
  | bare {name : Name} {after after' : Blanks} :
      Base.Rewrites unrolled (.bare name after) (.bare name after')
  | group {a a' : Alternatives} {o c o' c' : Blanks} :
      Alternatives.Rewrites unrolled a a' → Base.Rewrites unrolled (.group o a c) (.group o' a' c')

/-- A factor is rewritten in its base. -/
inductive Factor.Rewrites (unrolled : Bool) : Factor → Factor → Prop
  | mk {b b' : Base} {suffix suffix' : Option Suffix} :
      Base.Rewrites unrolled b b' → Option.Rel Suffix.Respaced suffix suffix' →
      Factor.Rewrites unrolled (.mk b suffix) (.mk b' suffix')

/-- A sequence is rewritten factor by factor. -/
inductive Sequence.Rewrites (unrolled : Bool) : Sequence → Sequence → Prop
  | nil : Sequence.Rewrites unrolled .nil .nil
  | cons {f f' : Factor} {rest rest' : Sequence} :
      Factor.Rewrites unrolled f f' → Sequence.Rewrites unrolled rest rest' →
      Sequence.Rewrites unrolled (.cons f rest) (.cons f' rest')
  /-- Parentheses around a sequence, as in `e (f g)` and `(e f) g`, are left out. -/
  | flat {inner inner' rest rest' : Sequence} {o c : Blanks} :
      inner ≠ .nil → Sequence.Rewrites unrolled inner inner' →
      Sequence.Rewrites unrolled rest rest' →
      Sequence.Rewrites unrolled (.cons (.mk (.group o (.mk inner .nil) c) none) rest)
        (inner'.append rest')
  /-- Where repetitions are unrolled, `e+` is written out as `e e*`. -/
  | plus {b b' b'' : Base} {rest rest' : Sequence} {after after' : Blanks} :
      unrolled = true → Base.Rewrites unrolled b b' → Base.Rewrites unrolled b b'' →
      Sequence.Rewrites unrolled rest rest' →
      Sequence.Rewrites unrolled (.cons (.mk b (some (.operator .plus after))) rest)
        (.cons (.mk b' none) (.cons (.mk b'' (some (.operator .star after'))) rest'))

/-- Branches are rewritten one by one. -/
inductive Branches.Rewrites (unrolled : Bool) : Branches → Branches → Prop
  | nil : Branches.Rewrites unrolled .nil .nil
  | cons {s s' : Sequence} {rest rest' : Branches} {bar bar' : Blanks} :
      Sequence.Rewrites unrolled s s' → Branches.Rewrites unrolled rest rest' →
      Branches.Rewrites unrolled (.cons bar s rest) (.cons bar' s' rest')
  /-- Parentheses around alternatives, as in `a | (b | c)`, are left out. -/
  | flat {first first' : Sequence} {others others' rest rest' : Branches} {bar bar' o c : Blanks} :
      Sequence.Rewrites unrolled first first' → Branches.Rewrites unrolled others others' →
      Branches.Rewrites unrolled rest rest' →
      Branches.Rewrites unrolled
        (.cons bar (.cons (.mk (.group o (.mk first others) c) none) .nil) rest)
        (.cons bar' first' (others'.append rest'))

/-- So are alternatives. -/
inductive Alternatives.Rewrites (unrolled : Bool) : Alternatives → Alternatives → Prop
  | mk {s s' : Sequence} {others others' : Branches} :
      Sequence.Rewrites unrolled s s' → Branches.Rewrites unrolled others others' →
      Alternatives.Rewrites unrolled (.mk s others) (.mk s' others')
  /-- Parentheses around alternatives that come first, as in `(a | b) | c`, are left out. -/
  | flat {first first' : Sequence} {others others' rest rest' : Branches} {o c : Blanks} :
      Sequence.Rewrites unrolled first first' → Branches.Rewrites unrolled others others' →
      Branches.Rewrites unrolled rest rest' →
      Alternatives.Rewrites unrolled
        (.mk (.cons (.mk (.group o (.mk first others) c) none) .nil) rest)
        (.mk first' (others'.append rest'))

end

/-- A statement is rewritten in its body. -/
structure Statement.Rewrites (unrolled : Bool) (s s' : Statement) : Prop where
  name : s.name = s'.name
  label : s.label.map Label.quoted = s'.label.map Label.quoted
  body : s.body.Rewrites unrolled s'.body

/-- **A grammar is rewritten statement by statement.** -/
def Source.Rewrites (unrolled : Bool) (s s' : Source) : Prop :=
  List.Forall₂ (Statement.Rewrites unrolled) s.statements s'.statements

/-! ## Items that are the same in canonical form -/

/-- Whether two expressions have one canonical form. -/
def SameForm (unrolled : Bool) (e e' : Expr) : Prop :=
  e.canonical unrolled = e'.canonical unrolled

/-- A way to combine expressions, and what a combination adds to one around it. -/
structure Combines (unrolled : Bool) (combine : List Expr → Expr) (add : Expr → List Expr) :
    Prop where
  canonical_eq : ∀ items, (combine items).canonical unrolled =
    combine ((items.map (Expr.canonical unrolled)).flatMap add)
  add_eq : ∀ items, items ≠ [] → add ((combine items).canonical unrolled) =
    (items.map (Expr.canonical unrolled)).flatMap add

theorem combines_sequence (unrolled : Bool) : Combines unrolled .sequence Expr.parts where
  canonical_eq := Expr.canonical_sequence
  add_eq items _ := by rw [Expr.canonical_sequence, Expr.parts]

theorem combines_alternation (unrolled : Bool) : Combines unrolled .alternation Expr.branches where
  canonical_eq := Expr.canonical_alternation
  add_eq items hne := by
    obtain ⟨e, others, rfl⟩ := List.exists_cons_of_ne_nil hne
    rw [Expr.canonical_alternation]
    exact Expr.branches_alternation fun hnil =>
      (e.canonical unrolled).branches_ne_nil (List.append_eq_nil_iff.1 hnil).1

/-- Items that add the same to a combination around them, and come to the same where they are
combined or stand alone. -/
structure SameItems (unrolled : Bool) (combine : List Expr → Expr) (add : Expr → List Expr)
    (as bs : List Expr) : Prop where
  added : (as.map (Expr.canonical unrolled)).flatMap add =
    (bs.map (Expr.canonical unrolled)).flatMap add
  collapsed : SameForm unrolled (collapsed combine as) (collapsed combine bs)
  nil_iff : as = [] ↔ bs = []

namespace SameItems

variable {unrolled : Bool} {combine : List Expr → Expr} {add : Expr → List Expr} {a b : Expr}
  {as bs cs ds : List Expr}

theorem refl (as : List Expr) : SameItems unrolled combine add as as := ⟨rfl, rfl, Iff.rfl⟩

theorem trans (h : SameItems unrolled combine add as bs)
    (h' : SameItems unrolled combine add bs cs) :
    SameItems unrolled combine add as cs :=
  ⟨h.added.trans h'.added, h.collapsed.trans h'.collapsed, h.nil_iff.trans h'.nil_iff⟩

/-- Two items or more are combined. -/
theorem collapsed_of_one_lt (h : 1 < as.length) : Written.collapsed combine as = combine as := by
  unfold Written.collapsed
  split
  · exact absurd h (Nat.lt_irrefl 1)
  · rfl

variable (hcombines : Combines unrolled combine add)
include hcombines

/-- Items that add the same, two or more on both sides, are the same. -/
theorem of_one_lt (has : 1 < as.length) (hbs : 1 < bs.length)
    (hadded : (as.map (Expr.canonical unrolled)).flatMap add =
      (bs.map (Expr.canonical unrolled)).flatMap add) :
    SameItems unrolled combine add as bs where
  added := hadded
  collapsed := by
    rw [collapsed_of_one_lt has, collapsed_of_one_lt hbs, SameForm, hcombines.canonical_eq,
      hcombines.canonical_eq, hadded]
  nil_iff := iff_of_false (List.ne_nil_of_length_pos (Nat.lt_of_succ_lt has))
    (List.ne_nil_of_length_pos (Nat.lt_of_succ_lt hbs))

/-- What collapsed items add is what the items add. -/
theorem add_collapsed (hne : as ≠ []) :
    add ((Written.collapsed combine as).canonical unrolled) =
      (as.map (Expr.canonical unrolled)).flatMap add := by
  unfold Written.collapsed
  split
  · exact (List.append_nil _).symm
  · exact hcombines.add_eq as hne

theorem cons (h : SameForm unrolled a b) (hs : SameItems unrolled combine add as bs) :
    SameItems unrolled combine add (a :: as) (b :: bs) := by
  have hadded : ((a :: as).map (Expr.canonical unrolled)).flatMap add =
      ((b :: bs).map (Expr.canonical unrolled)).flatMap add := by
    rw [List.map_cons, List.map_cons, List.flatMap_cons, List.flatMap_cons, hs.added, h]
  by_cases hnil : as = []
  · have hnil' := hs.nil_iff.1 hnil
    subst hnil hnil'
    exact ⟨hadded, h, iff_of_false (List.cons_ne_nil _ _) (List.cons_ne_nil _ _)⟩
  · have hlength := List.length_pos_iff.2 hnil
    have hlength' := List.length_pos_iff.2 fun hnil' => hnil (hs.nil_iff.2 hnil')
    exact of_one_lt hcombines (Nat.succ_lt_succ hlength) (Nat.succ_lt_succ hlength') hadded

/-- **A combination among the items may be taken apart.** -/
theorem flat (hne : as ≠ []) (hs : SameItems unrolled combine add as bs)
    (hs' : SameItems unrolled combine add cs ds) :
    SameItems unrolled combine add (Written.collapsed combine as :: cs) (bs ++ ds) := by
  have hadded : ((Written.collapsed combine as :: cs).map (Expr.canonical unrolled)).flatMap add =
      ((bs ++ ds).map (Expr.canonical unrolled)).flatMap add := by
    rw [List.map_cons, List.flatMap_cons, add_collapsed hcombines hne, hs.added, hs'.added,
      List.map_append, List.flatMap_append]
  have hne' : bs ≠ [] := fun hnil => hne (hs.nil_iff.2 hnil)
  by_cases hnil : cs = []
  · have hnil' := hs'.nil_iff.1 hnil
    subst hnil hnil'
    rw [List.append_nil] at hadded ⊢
    exact ⟨hadded, hs.collapsed, iff_of_false (List.cons_ne_nil _ _) hne'⟩
  · have hlength := List.length_pos_iff.2 hnil
    have hlength' := List.length_pos_iff.2 fun hnil' => hnil (hs'.nil_iff.2 hnil')
    have hbs := List.length_pos_iff.2 hne'
    refine of_one_lt hcombines (Nat.succ_lt_succ hlength) ?_ hadded
    rw [List.length_append]
    omega

end SameItems

variable {unrolled : Bool}

/-- Once or more is once and then any number of times, where repetitions are unrolled. -/
theorem sameForm_plus {x y z : Expr} (hunrolled : unrolled = true) (hy : SameForm unrolled x y)
    (hz : SameForm unrolled x z) :
    SameForm unrolled (.repetition x 1 none) (.sequence [y, .repetition z 0 none]) := by
  have hplus : (x.canonical unrolled).repeated unrolled 1 none =
      .sequence ((x.canonical unrolled).parts ++ [.repetition (x.canonical unrolled) 0 none]) :=
    if_pos ⟨hunrolled, rfl, rfl⟩
  have hstar : (z.canonical unrolled).repeated unrolled 0 none =
      .repetition (z.canonical unrolled) 0 none := if_neg fun h => nomatch h.2.1
  rw [SameForm, Expr.canonical_sequence, Expr.canonical, hplus, List.map_cons, List.map_singleton,
    List.flatMap_cons, List.flatMap_singleton, Expr.canonical, hstar, ← hy, ← hz]
  rfl

/-- **Once or more among the items of a sequence may be written out.** -/
theorem SameItems.plus {x y z : Expr} {as bs : List Expr} (hunrolled : unrolled = true)
    (hy : SameForm unrolled x y) (hz : SameForm unrolled x z)
    (hs : SameItems unrolled .sequence Expr.parts as bs) :
    SameItems unrolled .sequence Expr.parts (.repetition x 1 none :: as)
      (y :: .repetition z 0 none :: bs) :=
  (cons (combines_sequence _) (sameForm_plus hunrolled hy hz) (refl as)).trans
    (flat (combines_sequence _) (List.cons_ne_nil _ _) (refl [y, .repetition z 0 none]) hs)

/-! ## What is stated agrees -/

/-- Both are faults, or both are results that are related. -/
inductive Agree {α β : Type} (R : α → β → Prop) :
    Except GrammarError α → Except GrammarError β → Prop
  | error {e e' : GrammarError} : Agree R (.error e) (.error e')
  | ok {a : α} {b : β} : R a b → Agree R (.ok a) (.ok b)

theorem Agree.bind {α β γ δ : Type} {R : α → β → Prop} {S : γ → δ → Prop}
    {x : Except GrammarError α} {y : Except GrammarError β} {f : α → Except GrammarError γ}
    {g : β → Except GrammarError δ} (h : Agree R x y)
    (hgo : ∀ a b, x = .ok a → R a b → Agree S (f a) (g b)) : Agree S (x >>= f) (y >>= g) := by
  cases h with
  | error => exact .error
  | ok hab => exact hgo _ _ rfl hab

section

variable {α : Type} {R : α → α → Prop} {x y z : Except GrammarError α}

theorem Agree.refl (hR : ∀ a, R a a) (x : Except GrammarError α) : Agree R x x := by
  cases x with
  | error e => exact .error
  | ok a => exact .ok (hR a)

theorem Agree.symm (hR : ∀ a b, R a b → R b a) (h : Agree R x y) : Agree R y x := by
  cases h with
  | error => exact .error
  | ok hab => exact .ok (hR _ _ hab)

theorem Agree.trans (hR : ∀ a b c, R a b → R b c → R a c) (h : Agree R x y) (h' : Agree R y z) :
    Agree R x z := by
  cases h with
  | error =>
    cases h'
    exact .error
  | ok hab =>
    cases h' with
    | ok hbc => exact .ok (hR _ _ _ hab hbc)

end

/-- What agrees with a result is a result. -/
theorem Agree.exists_ok {α β : Type} {R : α → β → Prop} {a : α} {y : Except GrammarError β}
    (h : Agree R (.ok a) y) : ∃ b, y = .ok b ∧ R a b := by
  cases h with
  | ok hab => exact ⟨_, rfl, hab⟩

variable {dialect : Pattern.Dialect}

theorem Sequence.meanings_append : ∀ (s s' : Sequence) (p : Position),
    (s.append s').meanings dialect p = (do
      let items ← s.meanings dialect p
      let rest ← s'.meanings dialect (p.after s.text)
      .ok (items ++ rest))
  | .nil, s', p => by
    rw [Sequence.append, Sequence.meanings, Sequence.text]
    exact (bind_pure _).symm
  | .cons first rest, s', p => by
    rw [Sequence.append, Sequence.meanings, Sequence.meanings, bind_assoc]
    refine bind_congr fun item => ?_
    rw [rest.meanings_append s', Sequence.text, Position.after_append, bind_assoc, bind_assoc]
    refine bind_congr fun items => ?_
    rw [bind_assoc]
    rfl

theorem Branches.meanings_append : ∀ (b b' : Branches) (p : Position),
    (b.append b').meanings dialect p = (do
      let items ← b.meanings dialect p
      let rest ← b'.meanings dialect (p.after b.text)
      .ok (items ++ rest))
  | .nil, b', p => by
    rw [Branches.append, Branches.meanings, Branches.text]
    exact (bind_pure _).symm
  | .cons bar first rest, b', p => by
    rw [Branches.append, Branches.meanings, Branches.meanings, bind_assoc]
    refine bind_congr fun items => ?_
    rw [rest.meanings_append b', Branches.text, Position.after_append, Position.after_append,
      bind_assoc, bind_assoc]
    refine bind_congr fun branches => ?_
    rw [bind_assoc]
    rfl

/-- A base without a suffix is a factor as it is. -/
theorem Factor.meaning_base (b : Base) (p : Position) :
    (Factor.mk b none).meaning dialect p = b.meaning dialect p := by
  rw [Factor.meaning]
  exact bind_pure _

theorem Factor.meaning_plus (b : Base) (after : Blanks) (p : Position) :
    (Factor.mk b (some (.operator .plus after))).meaning dialect p =
      b.meaning dialect p >>= fun x => pure (.repetition x 1 none) := by
  rw [Factor.meaning]
  rfl

theorem Factor.meaning_star (b : Base) (after : Blanks) (p : Position) :
    (Factor.mk b (some (.operator .star after))).meaning dialect p =
      b.meaning dialect p >>= fun x => pure (.repetition x 0 none) := by
  rw [Factor.meaning]
  rfl

/-- A group without a suffix states what is in it. -/
theorem Factor.meaning_group (a : Alternatives) (o c : Blanks) (p : Position) :
    (Factor.mk (.group o a c) none).meaning dialect p =
      a.meaning dialect (p.after ('(' :: o.text)) := by
  rw [Factor.meaning_base, Base.meaning]

/-- A sequence alone is no alternation. -/
theorem Alternatives.meaning_sequence (s : Sequence) (p : Position) :
    (Alternatives.mk s .nil).meaning dialect p = (do
      let items ← s.meanings dialect p
      .ok (collapsed .sequence items)) := by
  rw [Alternatives.meaning]
  refine bind_congr fun items => ?_
  rw [Branches.meanings]
  rfl

/-- A sequence of one group states what is in the group. -/
theorem Sequence.meanings_group (a : Alternatives) (o c : Blanks) (p : Position) :
    (Sequence.cons (.mk (.group o a c) none) .nil).meanings dialect p = (do
      let item ← a.meaning dialect (p.after ('(' :: o.text))
      .ok [item]) := by
  rw [Sequence.meanings, Factor.meaning_group]
  refine bind_congr fun item => ?_
  rw [Sequence.meanings]
  rfl

/-- Where there are factors, there are items. -/
theorem Sequence.items_ne_nil {s : Sequence} {p : Position} {items : List Expr} (hne : s ≠ .nil)
    (h : s.meanings dialect p = .ok items) : items ≠ [] := by
  cases s with
  | nil => exact absurd rfl hne
  | cons first rest =>
    rw [Sequence.meanings] at h
    obtain ⟨item, -, h⟩ := except_bind_eq_ok h
    obtain ⟨rest, -, h⟩ := except_bind_eq_ok h
    cases h
    exact List.cons_ne_nil _ _

/-- A suffix with other blanks makes the same of the same item, wherever it stands. -/
theorem Suffix.Respaced.agree {s s' : Suffix} (h : s.Respaced s') {e e' : Expr}
    (he : SameForm unrolled e e') (p p' : Position) :
    Agree (SameForm unrolled) (s.meaning e p) (s'.meaning e' p') := by
  have hnumber : ∀ n : Number, Agree (· = ·) (n.bound p) (n.bound p') := by
    intro n
    unfold Number.bound
    split
    · exact .ok rfl
    · exact .error
  have hrepetition : ∀ min max,
      SameForm unrolled (.repetition e min max) (.repetition e' min max) := by
    intro min max
    rw [SameForm, Expr.canonical, Expr.canonical, he]
  cases h with
  | @operator op =>
    cases op with
    | star => exact .ok (hrepetition _ _)
    | plus => exact .ok (hrepetition _ _)
    | question => exact .ok (congrArg Expr.optional he)
    | bang => exact .ok (congrArg Expr.absent he)
  | exactly =>
    refine (hnumber _).bind fun n n' _ hn => ?_
    rw [hn]
    exact .ok (hrepetition _ _)
  | atLeast =>
    refine (hnumber _).bind fun n n' _ hn => ?_
    rw [hn]
    exact .ok (hrepetition _ _)
  | between =>
    refine (hnumber _).bind fun low low' _ hlow => (hnumber _).bind fun high high' _ hhigh => ?_
    rw [hlow, hhigh]
    split
    · exact .error
    · exact .ok (hrepetition _ _)

mutual

theorem Base.Rewrites.agree : ∀ {b b' : Base}, b.Rewrites unrolled b' →
    ∀ p p', Agree (SameForm unrolled) (b.meaning dialect p) (b'.meaning dialect p')
  | _, _, .string, p, p' => by
    rw [Base.meaning, Base.meaning]
    exact .ok rfl
  | _, _, .char, p, p' => by
    rw [Base.meaning, Base.meaning]
    exact .ok rfl
  | _, _, .regex (q := q), p, p' => by
    rw [Base.meaning, Base.meaning]
    cases dialect q.source with
    | error reason => exact .error
    | ok meant => exact .ok rfl
  | _, _, .angled, p, p' => by
    rw [Base.meaning, Base.meaning]
    exact .ok rfl
  | _, _, .bare, p, p' => by
    rw [Base.meaning, Base.meaning]
    exact .ok rfl
  | _, _, .group ha, p, p' => by
    rw [Base.meaning, Base.meaning]
    exact ha.agree _ _

theorem Factor.Rewrites.agree : ∀ {f f' : Factor}, f.Rewrites unrolled f' →
    ∀ p p', Agree (SameForm unrolled) (f.meaning dialect p) (f'.meaning dialect p')
  | _, _, .mk hb hsuffix, p, p' => by
    rw [Factor.meaning, Factor.meaning]
    refine (hb.agree p p').bind fun e e' _ he => ?_
    cases hsuffix with
    | none => exact .ok he
    | some hs => exact hs.agree he _ _

theorem Sequence.Rewrites.agree : ∀ {s s' : Sequence}, s.Rewrites unrolled s' →
    ∀ p p', Agree (SameItems unrolled .sequence Expr.parts) (s.meanings dialect p)
      (s'.meanings dialect p')
  | _, _, .nil, p, p' => by
    rw [Sequence.meanings]
    exact .ok (.refl [])
  | _, _, .cons hf hrest, p, p' => by
    rw [Sequence.meanings, Sequence.meanings]
    exact (hf.agree _ _).bind fun e e' _ he => (hrest.agree _ _).bind fun as bs _ hs =>
      .ok (.cons (combines_sequence _) he hs)
  | _, _, .flat hne hinner hrest, p, p' => by
    rw [Sequence.meanings_append, Sequence.meanings, Factor.meaning_group,
      Alternatives.meaning_sequence, bind_assoc]
    exact (hinner.agree _ _).bind fun as bs has hs => (hrest.agree _ _).bind fun cs ds _ hs' =>
      .ok (.flat (combines_sequence _) (Sequence.items_ne_nil hne has) hs hs')
  | _, _, .plus hunrolled hb hb' hrest, p, p' => by
    rw [Sequence.meanings, Sequence.meanings, Sequence.meanings, Factor.meaning_plus,
      Factor.meaning_base, Factor.meaning_star]
    simp only [bind_assoc, pure_bind]
    -- the base is stated once on one side and twice on the other
    refine (hb.agree p p').bind fun x y hx hy => ?_
    obtain ⟨z, hmeaning, hz⟩ := (hx ▸ hb'.agree p _).exists_ok
    rw [hmeaning]
    exact (hrest.agree _ _).bind fun as bs _ hs => .ok (SameItems.plus hunrolled hy hz hs)

theorem Branches.Rewrites.agree : ∀ {b b' : Branches}, b.Rewrites unrolled b' →
    ∀ p p', Agree (SameItems unrolled .alternation Expr.branches) (b.meanings dialect p)
      (b'.meanings dialect p')
  | _, _, .nil, p, p' => by
    rw [Branches.meanings]
    exact .ok (.refl [])
  | _, _, .cons hs hrest, p, p' => by
    rw [Branches.meanings, Branches.meanings]
    exact (hs.agree _ _).bind fun e e' _ he => (hrest.agree _ _).bind fun as bs _ h =>
      .ok (.cons (combines_alternation _) he.collapsed h)
  | _, _, .flat hfirst hothers hrest, p, p' => by
    rw [Branches.meanings, Sequence.meanings_group, Alternatives.meaning, Branches.meanings,
      Branches.meanings_append, bind_assoc, bind_assoc]
    refine (hfirst.agree _ _).bind fun as bs _ hs => ?_
    rw [bind_assoc, bind_assoc]
    refine (hothers.agree _ _).bind fun cs ds _ hs' => ?_
    rw [bind_assoc]
    exact (hrest.agree _ _).bind fun _ _ _ h =>
      .ok (SameItems.flat (combines_alternation _) (List.cons_ne_nil _ _)
        (.cons (combines_alternation _) hs.collapsed hs') h)

theorem Alternatives.Rewrites.agree : ∀ {a a' : Alternatives}, a.Rewrites unrolled a' →
    ∀ p p', Agree (SameForm unrolled) (a.meaning dialect p) (a'.meaning dialect p')
  | _, _, .mk hs hothers, p, p' => by
    rw [Alternatives.meaning, Alternatives.meaning]
    exact (hs.agree _ _).bind fun e e' _ he => (hothers.agree _ _).bind fun as bs _ h =>
      .ok (SameItems.cons (combines_alternation _) he.collapsed h).collapsed
  | _, _, .flat hfirst hothers hrest, p, p' => by
    rw [Alternatives.meaning, Sequence.meanings_group, Alternatives.meaning, Alternatives.meaning,
      Branches.meanings_append, bind_assoc, bind_assoc]
    refine (hfirst.agree _ _).bind fun as bs _ hs => ?_
    rw [bind_assoc, bind_assoc]
    refine (hothers.agree _ _).bind fun cs ds _ hs' => ?_
    rw [bind_assoc]
    exact (hrest.agree _ _).bind fun _ _ _ h =>
      .ok (SameItems.flat (combines_alternation _) (List.cons_ne_nil _ _)
        (.cons (combines_alternation _) hs.collapsed hs') h).collapsed

end

/-! ## Definitions -/

/-- A statement defines the same in canonical form. -/
theorem Statement.Rewrites.agree {s s' : Statement} (h : s.Rewrites unrolled s')
    (p p' : Position) :
    Agree (fun d d' => d.canonical unrolled = d'.canonical unrolled) (s.definition dialect p)
      (s'.definition dialect p') := by
  refine (h.body.agree _ _).bind fun e e' _ he => .ok ?_
  have hlabel : s.label.map (fun l => String.ofList l.quoted.value) =
      s'.label.map (fun l => String.ofList l.quoted.value) := by
    have hquoted := congrArg (Option.map fun q => String.ofList q.value) h.label
    rwa [Option.map_map, Option.map_map] at hquoted
  rw [Definition.canonical, Definition.canonical, Definition.mk.injEq]
  exact ⟨by rw [h.name], hlabel, he, rfl⟩

/-- Definitions that are the same in canonical form. -/
def SameForms (unrolled : Bool) (ds ds' : List Definition) : Prop :=
  ds.map (Definition.canonical unrolled) = ds'.map (Definition.canonical unrolled)

theorem agree_statementsDefinitions {l l' : List Statement}
    (h : List.Forall₂ (Statement.Rewrites unrolled) l l') (p p' : Position) :
    Agree (SameForms unrolled) (statementsDefinitions dialect l p)
      (statementsDefinitions dialect l' p') := by
  induction h generalizing p p' with
  | nil => exact .ok rfl
  | cons hs _ ih =>
    exact (hs.agree _ _).bind fun d d' _ hd => (ih _ _).bind fun ds ds' _ hds =>
      .ok (congrArg₂ List.cons hd hds)

/-- **A rewritten grammar states the same in canonical form**, or both are at fault. -/
theorem Source.Rewrites.agree {s s' : Source} (h : s.Rewrites unrolled s') :
    Agree (SameForms unrolled) (s.definitions dialect) (s'.definitions dialect) :=
  agree_statementsDefinitions h _ _

/-- And so does one that is rewritten again and again, this way and that. -/
theorem agree_of_eqvGen {s s' : Source} (h : Relation.EqvGen (Source.Rewrites unrolled) s s') :
    Agree (SameForms unrolled) (s.definitions dialect) (s'.definitions dialect) := by
  induction h with
  | rel s s' h => exact h.agree
  | refl s => exact Agree.refl (R := SameForms unrolled) (fun _ => rfl) _
  | symm s s' _ ih => exact ih.symm fun _ _ => Eq.symm
  | trans s t u _ _ ih ih' => exact ih.trans (fun _ _ _ => Eq.trans) ih'

end Written

namespace Language

open Written

variable {unrolled : Bool}

/-- **Rewriting a grammar keeps what it says.** Texts that fit and are written as grammars one of
which is rewritten to the other, by leaving out or putting in parentheses around sequences in
sequences and alternations in alternations, and by writing out `e+` as `e e*` or the other way
round, in any rules, as deep in them and as often as one likes, are accepted alike, whether or not
white space counts and whatever graphs they are compiled into. Where they are, they have the same
rules, and under any limits the runs of a rule over an input come to the same tree or the same error
unless one of them is stopped. If repetitions are rewritten, this takes patterns that know whether
they match the empty text. It does not matter which dialect regular expressions are read in. -/
theorem compile_rewritten {base base' : Graph} (hbase : base.Built) (hbase' : base'.Built)
    {s s' : Source} {dialect : Pattern.Dialect} {text text' : String}
    (hrewrites : Relation.EqvGen (Source.Rewrites unrolled) s s')
    (hspaced : s.Spaced) (hspaced' : s'.Spaced) (htext : s.text = text.toList)
    (htext' : s'.text = text'.toList) (hfits : Fits text) (hfits' : Fits text')
    (sensitive : Bool) :
    ((∃ c g, compile dialect text [] sensitive base = .ok (.ok c) g) ↔
      ∃ c g, compile dialect text' [] sensitive base' = .ok (.ok c) g) ∧
    ∀ ds c c' g g', definitions dialect text = .ok (.ok ds) →
      (unrolled = true → ∀ p, Occurs ds (.pattern p) → p.KnowsEmpty) →
      compile dialect text [] sensitive base = .ok (.ok c) g →
      compile dialect text' [] sensitive base' = .ok (.ok c') g' →
      c.table.names = c'.table.names ∧
      ∀ name ∈ ds.map Definition.name, ∃ id id',
        c.table.get? name = some id ∧ c'.table.get? name = some id' ∧
        ∀ limit limit' input, ¬ (g.setMaxDepth limit).Stopped id input →
          ¬ (g'.setMaxDepth limit').Stopped id' input →
          (g.setMaxDepth limit).run id input = (g'.setMaxDepth limit').run id' input := by
  have hread : definitions dialect text = .ok (s.definitions dialect) :=
    definitions_of_parse (parse_written hfits hspaced htext)
  have hread' : definitions dialect text' = .ok (s'.definitions dialect) :=
    definitions_of_parse (parse_written hfits' hspaced' htext')
  have hagree : Agree (SameForms unrolled) (s.definitions dialect) (s'.definitions dialect) :=
    agree_of_eqvGen hrewrites
  generalize s.definitions dialect = stated, s'.definitions dialect = stated'
    at hagree hread hread'
  cases hagree with
  | error =>
    -- what is at fault is rejected
    have hrejected : ∀ {text e g}, definitions dialect text = .ok (.error e) →
        ¬ ∃ c g', compile dialect text [] sensitive g = .ok (.ok c) g' := by
      rintro text e g hdefs ⟨c, g', hcompile⟩
      rcases compile_eq_ok hcompile with ⟨_, -, hr, -⟩ | ⟨ds, hdefs', -⟩
      · exact nomatch hr
      · cases hdefs.symm.trans hdefs'
    refine ⟨iff_of_false (hrejected hread) (hrejected hread'), ?_⟩
    intro ds c c' g g' hdefs
    cases hread.symm.trans hdefs
  | ok hform =>
    refine ⟨compile_accepts_canonical hbase.sound hbase'.sound hread hread' hform, ?_⟩
    intro ds c c' g g' hdefs hpattern hcompile hcompile'
    cases hread.symm.trans hdefs
    exact compile_run_canonical hbase.sound hbase'.sound hread hread' hform hpattern hcompile
      hcompile'

/-! ## A rule that is written out -/

/-- One base as a sequence. -/
def alone (b : Base) : Sequence := .cons (.mk b none) .nil

/-- Alternatives in parentheses. -/
def inGroup (a : Alternatives) : Sequence := alone (.group noBlanks a noBlanks)

/-- A character between marks. -/
def aChar (c : Char) (hmark : c ≠ '\'') (hbackslash : c ≠ '\\') : Base :=
  .char ⟨[.plain c hmark hbackslash]⟩ noBlanks

theorem isNameStart_a : isNameStart 'a' = true := by decide

theorem isNameStart_b : isNameStart 'b' = true := by decide

/-- A rule with a name of one letter. -/
def aRule (c : Char) (h : isNameStart c = true) (body : Alternatives) : Statement :=
  ⟨aLetter c h, noBlanks, none, noBlanks, body, noBlanks⟩

/-- An `x`. -/
def xChar : Base := aChar 'x' (by decide) (by decide)

/-- A `y` and then a `z`. -/
def yzChars : Sequence :=
  .cons (.mk (aChar 'y' (by decide) (by decide)) none) (alone (aChar 'z' (by decide) (by decide)))

/-- A `v`. -/
def vChars : Sequence := alone (aChar 'v' (by decide) (by decide))

/-- A `w`, with a bar in front. -/
def wBranch : Branches := .cons noBlanks (alone (aChar 'w' (by decide) (by decide))) .nil

/-- A rule with a repetition and a sequence in a sequence, and an alternation in an alternation. -/
def nestedSource : Source :=
  ⟨noBlanks, [aRule 'a' isNameStart_a (.mk
    (.cons (.mk xChar (some (.operator .plus noBlanks))) (inGroup (.mk yzChars .nil)))
    (.cons noBlanks (inGroup (.mk vChars wBranch)) .nil))]⟩

/-- The same rule without parentheses, the repetition written out. -/
def flatSource : Source :=
  ⟨noBlanks, [aRule 'a' isNameStart_a (.mk
    (.cons (.mk xChar none) (.cons (.mk xChar (some (.operator .star noBlanks))) yzChars))
    (.cons noBlanks vChars wBranch))]⟩

theorem nestedSource_rewrites : nestedSource.Rewrites true flatSource := by
  have hchar : ∀ {c hmark hbackslash},
      Base.Rewrites true (aChar c hmark hbackslash) (aChar c hmark hbackslash) := .char
  have halone : ∀ {c hmark hbackslash}, Sequence.Rewrites true
      (alone (aChar c hmark hbackslash)) (alone (aChar c hmark hbackslash)) :=
    .cons (.mk hchar .none) .nil
  have hsequence : Sequence.Rewrites true (inGroup (.mk yzChars .nil)) (yzChars.append .nil) :=
    .flat Sequence.noConfusion (.cons (.mk hchar .none) halone) .nil
  have hbranches : Branches.Rewrites true (.cons noBlanks (inGroup (.mk vChars wBranch)) .nil)
      (.cons noBlanks vChars (wBranch.append .nil)) :=
    .flat halone (.cons halone .nil) .nil
  exact .cons ⟨rfl, rfl, .mk (.plus rfl hchar hchar hsequence) hbranches⟩ .nil

theorem nestedSource_spaced : nestedSource.Spaced := by
  simp [nestedSource, aRule, xChar, yzChars, vChars, wBranch, aChar, inGroup, alone,
    Source.Spaced, Alternatives.Spaced, Branches.Spaced, Sequence.Spaced, Factor.Spaced,
    Base.Spaced, Factor.isOpen, Sequence.isBare]

theorem flatSource_spaced : flatSource.Spaced := by
  simp [flatSource, aRule, xChar, yzChars, vChars, wBranch, aChar, alone,
    Source.Spaced, Alternatives.Spaced, Branches.Spaced, Sequence.Spaced, Factor.Spaced,
    Base.Spaced, Factor.isOpen, Sequence.isBare]

theorem nestedSource_text : nestedSource.text = "a:'x'+('y''z')|('v'|'w');".toList := by decide

theorem flatSource_text : flatSource.text = "a:'x''x'*'y''z'|'v'|'w';".toList := by decide

theorem fits_nested : Fits "a:'x'+('y''z')|('v'|'w');" :=
  fits_of_verdict (b := true) (by decide +kernel)

theorem fits_flat : Fits "a:'x''x'*'y''z'|'v'|'w';" :=
  fits_of_verdict (b := true) (by decide +kernel)

theorem definitions_nested : definitions .plain "a:'x'+('y''z')|('v'|'w');" = .ok (.ok [⟨"a", none,
    .alternation [.sequence [.repetition (.char 'x') 1 none, .sequence [.char 'y', .char 'z']],
      .alternation [.char 'v', .char 'w']], .start⟩]) :=
  definitions_of_parse (parse_written fits_nested nestedSource_spaced nestedSource_text)

theorem definitions_flat : definitions .plain "a:'x''x'*'y''z'|'v'|'w';" = .ok (.ok [⟨"a", none,
    .alternation [.sequence [.char 'x', .repetition (.char 'x') 0 none, .char 'y', .char 'z'],
      .char 'v', .char 'w'], .start⟩]) :=
  definitions_of_parse (parse_written fits_flat flatSource_spaced flatSource_text)

/-- What the rule is compiled to where white space counts. -/
def nestedGraph : Graph where
  slots := #[.live 0 ⟨some "a", .rule (some ⟨13, 0⟩)⟩,
    .live 0 ⟨none, .terminal (.char 'x')⟩,
    .live 0 ⟨none, .repetition ⟨1, 0⟩ 1 none⟩,
    .live 0 ⟨none, .transform ⟨2, 0⟩ Tree.fold⟩,
    .live 0 ⟨none, .terminal (.char 'y')⟩,
    .live 0 ⟨none, .terminal (.char 'z')⟩,
    .live 0 ⟨none, .sequence [⟨4, 0⟩, ⟨5, 0⟩]⟩,
    .live 0 ⟨none, .transform ⟨6, 0⟩ Tree.fold⟩,
    .live 0 ⟨none, .sequence [⟨3, 0⟩, ⟨7, 0⟩]⟩,
    .live 0 ⟨none, .transform ⟨8, 0⟩ Tree.fold⟩,
    .live 0 ⟨none, .terminal (.char 'v')⟩,
    .live 0 ⟨none, .terminal (.char 'w')⟩,
    .live 0 ⟨none, .alternation [⟨10, 0⟩, ⟨11, 0⟩]⟩,
    .live 0 ⟨none, .alternation [⟨9, 0⟩, ⟨12, 0⟩]⟩]
  free := []
  live := 14
  maxDepth := 256

/-- What it is compiled to when it is written out. -/
def flatGraph : Graph where
  slots := #[.live 0 ⟨some "a", .rule (some ⟨11, 0⟩)⟩,
    .live 0 ⟨none, .terminal (.char 'x')⟩,
    .live 0 ⟨none, .terminal (.char 'x')⟩,
    .live 0 ⟨none, .repetition ⟨2, 0⟩ 0 none⟩,
    .live 0 ⟨none, .transform ⟨3, 0⟩ Tree.fold⟩,
    .live 0 ⟨none, .terminal (.char 'y')⟩,
    .live 0 ⟨none, .terminal (.char 'z')⟩,
    .live 0 ⟨none, .sequence [⟨1, 0⟩, ⟨4, 0⟩, ⟨5, 0⟩, ⟨6, 0⟩]⟩,
    .live 0 ⟨none, .transform ⟨7, 0⟩ Tree.fold⟩,
    .live 0 ⟨none, .terminal (.char 'v')⟩,
    .live 0 ⟨none, .terminal (.char 'w')⟩,
    .live 0 ⟨none, .alternation [⟨8, 0⟩, ⟨9, 0⟩, ⟨10, 0⟩]⟩]
  free := []
  live := 12
  maxDepth := 256

theorem compile_nested : compile .plain "a:'x'+('y''z')|('v'|'w');" [] true Graph.empty =
    .ok (.ok ⟨RuleTable.empty.insert "a" ⟨0, 0⟩, []⟩) nestedGraph := by
  rw [compile_of_definitions definitions_nested]
  cbv

theorem compile_flat : compile .plain "a:'x''x'*'y''z'|'v'|'w';" [] true Graph.empty =
    .ok (.ok ⟨RuleTable.empty.insert "a" ⟨0, 0⟩, []⟩) flatGraph := by
  rw [compile_of_definitions definitions_flat]
  cbv

/-- The rule is accepted both ways. On `xxv` the `y` is missing after the second `x`, however the
rule is written. -/
theorem compile_rewritten_flat :
    nestedSource.Rewrites true flatSource ∧ nestedSource.Spaced ∧ flatSource.Spaced ∧
      nestedSource.text = "a:'x'+('y''z')|('v'|'w');".toList ∧
      flatSource.text = "a:'x''x'*'y''z'|'v'|'w';".toList ∧
      Fits "a:'x'+('y''z')|('v'|'w');" ∧ Fits "a:'x''x'*'y''z'|'v'|'w';" ∧
      (∃ c g, compile .plain "a:'x''x'*'y''z'|'v'|'w';" [] true Graph.empty = .ok (.ok c) g) ∧
      nestedGraph.run ⟨0, 0⟩ "xxv" = .ok (.error (.expecting ⟨2, 1, 3⟩ "'y'" (some 'v'))) ∧
      flatGraph.run ⟨0, 0⟩ "xxv" = nestedGraph.run ⟨0, 0⟩ "xxv" := by
  have hpattern : ∀ p, ¬ Occurs [⟨"a", none,
      .alternation [.sequence [.repetition (.char 'x') 1 none, .sequence [.char 'y', .char 'z']],
        .alternation [.char 'v', .char 'w']], .start⟩] (.pattern p) := by
    intro p
    have hchar : ∀ c, ¬ (Expr.char c).Has (.pattern p) := by
      intro c
      rw [Expr.has_iff]
      simp [Expr.items]
    rw [occurs_iff]
    simp [Expr.has_pattern_inherited.alternation, Expr.has_pattern_inherited.sequence,
      Expr.has_pattern_inherited.repetition, hchar]
  obtain ⟨haccepts, hruns⟩ := compile_rewritten .empty .empty (.rel _ _ nestedSource_rewrites)
    nestedSource_spaced flatSource_spaced nestedSource_text flatSource_text fits_nested fits_flat
    true
  obtain ⟨-, hrun⟩ := hruns _ _ _ _ _ definitions_nested (fun _ p hp => absurd hp (hpattern p))
    compile_nested compile_flat
  obtain ⟨id, id', hget, hget', hrun⟩ := hrun "a" List.mem_cons_self
  have hid : (RuleTable.empty.insert "a" ⟨0, 0⟩).get? "a" = some ⟨0, 0⟩ := by cbv
  cases hid.symm.trans hget
  cases hid.symm.trans hget'
  have hgoes : ¬ nestedGraph.Stopped ⟨0, 0⟩ "xxv" := Graph.not_stopped_of_traced (by cbv)
  have hgoes' : ¬ flatGraph.Stopped ⟨0, 0⟩ "xxv" := Graph.not_stopped_of_traced (by cbv)
  exact ⟨nestedSource_rewrites, nestedSource_spaced, flatSource_spaced, nestedSource_text,
    flatSource_text, fits_nested, fits_flat, haccepts.1 ⟨_, _, compile_nested⟩, rfl,
    (hrun 256 256 "xxv" hgoes hgoes').symm⟩

/-! ## A pattern that does not know what it matches -/

/-- A character that is both an `a` and a `b`, any number of times. -/
def unmetQuoted : Quoted '/' :=
  ⟨[.plain '[' (by decide) (by decide), .plain 'a' (by decide) (by decide),
    .plain '&' (by decide) (by decide), .plain '&' (by decide) (by decide),
    .plain 'b' (by decide) (by decide), .plain ']' (by decide) (by decide),
    .plain '*' (by decide) (by decide)]⟩

/-- A rule for the pattern. -/
def unmetRule : Statement :=
  aRule 'b' isNameStart_b (.mk (alone (.regex unmetQuoted noBlanks)) .nil)

/-- The name of the rule. -/
def unmetName (after : Blanks) : Base := .bare (aLetter 'b' isNameStart_b) after

/-- A rule that goes on with the other once or more. -/
def rolledSource : Source :=
  ⟨noBlanks, [aRule 'a' isNameStart_a (.mk
    (.cons (.mk (unmetName noBlanks) (some (.operator .plus noBlanks))) .nil) .nil), unmetRule]⟩

/-- The same rule with the repetition written out. -/
def unrolledSource : Source :=
  ⟨noBlanks, [aRule 'a' isNameStart_a (.mk
    (.cons (.mk (unmetName ⟨[' '], List.forall_mem_singleton.2 (by decide)⟩) none)
      (.cons (.mk (unmetName noBlanks) (some (.operator .star noBlanks))) .nil)) .nil), unmetRule]⟩

theorem rolledSource_rewrites : rolledSource.Rewrites true unrolledSource :=
  .cons ⟨rfl, rfl, .mk (.plus rfl .bare .bare .nil) .nil⟩
    (.cons ⟨rfl, rfl, .mk (.cons (.mk .regex .none) .nil) .nil⟩ .nil)

theorem definition_unmetRule (p : Position) :
    unmetRule.definition .plain p = .ok ⟨"b", none, .pattern Pattern.unmet, p⟩ := by
  have hmeaning : ∀ p, (Base.regex unmetQuoted noBlanks).meaning .plain p =
      .ok (.pattern Pattern.unmet) := by
    intro p
    have hsource : unmetQuoted.source = "[a&&b]*" := rfl
    rw [Base.meaning, hsource, Pattern.Dialect.plain, Pattern.ofSource?_unmet]
    rfl
  simp only [Statement.definition, unmetRule, aRule, alone, Alternatives.meaning_sequence,
    Sequence.meanings, Factor.meaning_base, hmeaning]
  rfl

theorem rolledSource_definitions : rolledSource.definitions .plain =
    .ok [⟨"a", none, .repetition (.reference "b" ⟨2, 1, 3⟩) 1 none, .start⟩,
      ⟨"b", none, .pattern Pattern.unmet, ⟨5, 1, 6⟩⟩] := by
  rw [Source.definitions, rolledSource, statementsDefinitions, statementsDefinitions,
    definition_unmetRule]
  rfl

theorem unrolledSource_definitions : unrolledSource.definitions .plain =
    .ok [⟨"a", none, .sequence [.reference "b" ⟨2, 1, 3⟩,
        .repetition (.reference "b" ⟨4, 1, 5⟩) 0 none], .start⟩,
      ⟨"b", none, .pattern Pattern.unmet, ⟨7, 1, 8⟩⟩] := by
  rw [Source.definitions, unrolledSource, statementsDefinitions, statementsDefinitions,
    definition_unmetRule]
  rfl

/-- What the two rules are compiled to where white space counts. -/
def rolledGraph : Graph where
  slots := #[.live 0 ⟨some "a", .rule (some ⟨3, 0⟩)⟩,
    .live 0 ⟨some "b", .rule (some ⟨4, 0⟩)⟩,
    .live 0 ⟨none, .repetition ⟨1, 0⟩ 1 none⟩,
    .live 0 ⟨none, .transform ⟨2, 0⟩ Tree.fold⟩,
    .live 0 ⟨none, .terminal (.pattern Pattern.unmet)⟩]
  free := []
  live := 5
  maxDepth := 256

/-- What they are compiled to when the repetition is written out. -/
def unrolledGraph : Graph where
  slots := #[.live 0 ⟨some "a", .rule (some ⟨5, 0⟩)⟩,
    .live 0 ⟨some "b", .rule (some ⟨6, 0⟩)⟩,
    .live 0 ⟨none, .repetition ⟨1, 0⟩ 0 none⟩,
    .live 0 ⟨none, .transform ⟨2, 0⟩ Tree.fold⟩,
    .live 0 ⟨none, .sequence [⟨1, 0⟩, ⟨3, 0⟩]⟩,
    .live 0 ⟨none, .transform ⟨4, 0⟩ Tree.fold⟩,
    .live 0 ⟨none, .terminal (.pattern Pattern.unmet)⟩]
  free := []
  live := 7
  maxDepth := 256

/-- **Where a pattern does not know that it matches the empty text, writing out a repetition may
show.** Both grammars are accepted. Where the input ends, the pattern is matched once by the
repetition, which stays where it is and stops, and twice when it is written out. -/
theorem compile_unrolled_differs :
    rolledSource.Rewrites true unrolledSource ∧ rolledSource.Spaced ∧ unrolledSource.Spaced ∧
      rolledSource.text = "a:b+;b:/[a&&b]*/;".toList ∧
      unrolledSource.text = "a:b b*;b:/[a&&b]*/;".toList ∧
      Fits "a:b+;b:/[a&&b]*/;" ∧ Fits "a:b b*;b:/[a&&b]*/;" ∧
      ∃ c c', compile .plain "a:b+;b:/[a&&b]*/;" [] true Graph.empty = .ok (.ok c) rolledGraph ∧
        compile .plain "a:b b*;b:/[a&&b]*/;" [] true Graph.empty = .ok (.ok c') unrolledGraph ∧
        c.table.get? "a" = some ⟨0, 0⟩ ∧ c'.table.get? "a" = some ⟨0, 0⟩ ∧
        ¬ rolledGraph.Stopped ⟨0, 0⟩ "" ∧ ¬ unrolledGraph.Stopped ⟨0, 0⟩ "" ∧
        rolledGraph.run ⟨0, 0⟩ "" = .ok (.ok ((Tree.leaf "" .start).withTag "a|b")) ∧
        unrolledGraph.run ⟨0, 0⟩ "" = .ok (.ok ⟨"a", "", .start,
          [(Tree.leaf "" .start).withTag "b", (Tree.leaf "" .start).withTag "b"]⟩) := by
  have hspaced : rolledSource.Spaced := by
    simp [rolledSource, unmetRule, unmetName, aRule, alone, Source.Spaced, Alternatives.Spaced,
      Branches.Spaced, Sequence.Spaced, Factor.Spaced, Base.Spaced, Factor.isOpen, Sequence.isBare]
  have hspaced' : unrolledSource.Spaced := by
    simp [unrolledSource, unmetRule, unmetName, aRule, alone, Source.Spaced, Alternatives.Spaced,
      Branches.Spaced, Sequence.Spaced, Factor.Spaced, Base.Spaced, Factor.isOpen, Sequence.isBare]
  have htext : rolledSource.text = "a:b+;b:/[a&&b]*/;".toList := by decide
  have htext' : unrolledSource.text = "a:b b*;b:/[a&&b]*/;".toList := by decide
  have hfits : Fits "a:b+;b:/[a&&b]*/;" := fits_of_verdict (b := true) (by decide +kernel)
  have hfits' : Fits "a:b b*;b:/[a&&b]*/;" := fits_of_verdict (b := true) (by decide +kernel)
  have hread : definitions .plain "a:b+;b:/[a&&b]*/;" = .ok (rolledSource.definitions .plain) :=
    definitions_of_parse (parse_written hfits hspaced htext)
  rw [rolledSource_definitions] at hread
  have hread' : definitions .plain "a:b b*;b:/[a&&b]*/;" =
      .ok (unrolledSource.definitions .plain) :=
    definitions_of_parse (parse_written hfits' hspaced' htext')
  rw [unrolledSource_definitions] at hread'
  refine ⟨rolledSource_rewrites, hspaced, hspaced', htext, htext', hfits, hfits',
    ⟨(RuleTable.empty.insert "a" ⟨0, 0⟩).insert "b" ⟨1, 0⟩, []⟩,
    ⟨(RuleTable.empty.insert "a" ⟨0, 0⟩).insert "b" ⟨1, 0⟩, []⟩, ?_, ?_, by cbv, by cbv,
    Graph.not_stopped_of_traced (by cbv), Graph.not_stopped_of_traced (by cbv), rfl, rfl⟩
  · rw [compile_of_definitions hread]
    cbv
  · rw [compile_of_definitions hread']
    cbv

end Language

end ParserGraph.Grammar
