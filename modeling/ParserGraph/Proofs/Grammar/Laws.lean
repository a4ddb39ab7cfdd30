import Mathlib
import ParserGraph.Proofs.Grammar.Acceptance
import ParserGraph.Proofs.Grammar.Trial
import ParserGraph.Proofs.Run.Limit
import ParserGraph.Proofs.Tree.Normal

/-!
# Laws — expressions with one canonical form are tried with one result

Folding takes apart what was folded before, so a sequence in a sequence folds
to what its items fold to in the outer one (`Trial.spliced_folded`). Errors are
merged in the order of the branches, whichever are merged first, so an
alternation in an alternation fails as its branches do in the outer one
(`Trial.firstOf_nested`). And where a round takes something, once or more is
once and then any number of times (`Trial.folded_repeated`). So an expression
is tried as its canonical form (`Expr.trial_canonical`), and grammars whose
definitions have the same canonical forms are accepted alike and run alike
(`compile_accepts_canonical`, `compile_run_canonical`).
-/

namespace ParserGraph

/-- Parts of runs that go on alike from where another ends are alike after it. -/
theorem Attempt.run_bind_congr {α β : Type} {x : Attempt α} {f g : α → Attempt β}
    {kept : Option ParseError}
    (h : ∀ a kept', x.run kept = .ok (a, kept') → (f a).run kept' = (g a).run kept') :
    (x >>= f).run kept = (x >>= g).run kept := by
  rw [StateT.run_bind, StateT.run_bind]
  cases hx : x.run kept with
  | error halt => rfl
  | ok p => exact h p.1 p.2 hx

namespace Trial

open Attempt

variable {t : Trial} {ts ts' us us' : List Trial} {c : Cursor}

/-! ## A sequence in a sequence -/

/-- What trials in order come to, as one folded tree at a place. -/
def gathered (p : Position) : Except ParseError (List Tree × Cursor) → Outcome
  | .error e => .failed e
  | .ok (trees, stop) => .matched (Tree.branch trees p).fold stop

/-- Goes on with what comes next where trials have matched. -/
def goOn (next : Cursor → Attempt (Except ParseError (List Tree × Cursor))) :
    Except ParseError (List Tree × Cursor) → Attempt (Except ParseError (List Tree × Cursor))
  | .error e => pure (.error e)
  | .ok (trees, stop) => do
    let rest ← next stop
    pure (rest.map (Prod.map (trees ++ ·) id))

/-- What trials in order come to, with what their trees become below another one. -/
def spliced (ts : List Trial) (c : Cursor) : Attempt (Except ParseError (List Tree × Cursor)) := do
  let r ← inOrder ts c
  pure (r.map (Prod.map Tree.spliceAll id))

theorem folded_eq_inOrder (ts : List Trial) (c : Cursor) :
    folded ts c = inOrder ts c >>= fun r => pure (gathered c.position r) := by
  rw [folded, reshaped, transform, sequence, bind_assoc]
  refine bind_congr fun r => ?_
  cases r <;> rfl

/-- What is folded is told by what the trees become. -/
theorem folded_eq_spliced (ts : List Trial) (c : Cursor) :
    folded ts c = spliced ts c >>= fun r => pure (gathered c.position r) := by
  rw [folded_eq_inOrder, spliced, bind_assoc]
  refine bind_congr fun r => ?_
  rw [pure_bind]
  cases r with
  | error e => rfl
  | ok p =>
    exact congrArg (fun t => pure (Outcome.matched t p.2)) (Tree.fold_branch_spliceAll p.1 _).symm

theorem folded_congr (h : spliced ts = spliced us) : folded ts = folded us := by
  funext c
  rw [folded_eq_spliced, folded_eq_spliced, h]

theorem inOrder_append (ts us : List Trial) (c : Cursor) :
    inOrder (ts ++ us) c = inOrder ts c >>= goOn (inOrder us) := by
  induction ts generalizing c with
  | nil =>
    change inOrder us c = pure (.ok ([], c)) >>= goOn (inOrder us)
    rw [pure_bind, goOn]
    exact (bind_pure _).symm.trans (bind_congr fun r => by cases r <;> rfl)
  | cons t ts ih =>
    rw [List.cons_append, inOrder, inOrder, bind_assoc]
    refine bind_congr fun o => ?_
    cases o with
    | failed e => rfl
    | matched tree stop =>
      dsimp only
      rw [ih, bind_assoc, bind_assoc]
      refine bind_congr fun r => ?_
      cases r with
      | error e => rfl
      | ok p =>
        change (inOrder us p.2 >>= _) >>= _ = pure _ >>= _
        rw [bind_assoc, pure_bind]
        exact bind_congr fun rest => by cases rest <;> rfl

theorem spliced_append (ts us : List Trial) :
    spliced (ts ++ us) = fun c => spliced ts c >>= goOn (spliced us) := by
  funext c
  rw [spliced, inOrder_append, spliced, bind_assoc, bind_assoc]
  refine bind_congr fun r => ?_
  rw [pure_bind]
  cases r with
  | error e => rfl
  | ok p =>
    change (inOrder us p.2 >>= _) >>= _ = spliced us p.2 >>= _
    rw [spliced, bind_assoc, bind_assoc]
    refine bind_congr fun rest => ?_
    cases rest with
    | error e => rfl
    | ok q =>
      exact congrArg (fun trees => (pure (.ok (trees, q.2)) : Attempt (Except ParseError _)))
        (Tree.spliceAll_append p.1 q.1)

/-- **A sequence in a sequence comes to what its items come to in the outer one.** -/
theorem spliced_folded (ts : List Trial) : spliced [folded ts] = spliced ts := by
  funext c
  rw [spliced, inOrder, folded_eq_inOrder, bind_assoc, bind_assoc, spliced]
  refine bind_congr fun r => ?_
  cases r with
  | error e => rfl
  | ok p =>
    have hsplice : Tree.spliceAll [(Tree.branch p.1 c.position).fold] = Tree.spliceAll p.1 :=
      (List.append_nil _).trans (Tree.splice_fold_branch p.1 c.position)
    exact congrArg (fun trees => (pure (.ok (trees, p.2)) : Attempt (Except ParseError _))) hsplice

/-! ## An alternation in an alternation -/

/-- A failure after those before it. -/
def failedAfter (failure : Option ParseError) : Outcome → Outcome
  | .matched tree stop => .matched tree stop
  | .failed e => .failed (e.joinTo failure)

/-- Goes on with further trials where none has matched. -/
def orElse (c : Cursor) (ts : List Trial) : Outcome → Attempt Outcome
  | .matched tree stop => pure (.matched tree stop)
  | .failed e => firstOf c (some e) ts

theorem firstOf_cons (failure : Option ParseError) (t : Trial) (ts : List Trial) :
    firstOf c failure (t :: ts) = t c >>= fun o => orElse c ts (failedAfter failure o) := by
  rw [firstOf]
  exact bind_congr fun o => by cases o <;> rfl

/-- Failures are merged in order, whichever are merged first. -/
theorem joinTo_assoc (e f : ParseError) (failure : Option ParseError) :
    f.joinTo (some (e.joinTo failure)) = (f.joinTo (some e)).joinTo failure := by
  cases failure with
  | none => rfl
  | some first => exact ParseError.merge_assoc first e f

/-- What comes before the first of several failures comes before all of them. -/
theorem firstOf_joinTo (e : ParseError) (failure : Option ParseError) (ts : List Trial) :
    firstOf c (some (e.joinTo failure)) ts =
      firstOf c (some e) ts >>= fun o => pure (failedAfter failure o) := by
  induction ts generalizing e with
  | nil => rfl
  | cons t ts ih =>
    rw [firstOf_cons, firstOf_cons, bind_assoc]
    refine bind_congr fun o => ?_
    cases o with
    | matched tree stop => rfl
    | failed f =>
      change firstOf c (some (f.joinTo (some (e.joinTo failure)))) ts = _
      rw [joinTo_assoc, ih]
      rfl

theorem firstOf_append (e : ParseError) (us ts : List Trial) :
    firstOf c (some e) (us ++ ts) = firstOf c (some e) us >>= orElse c ts := by
  induction us generalizing e with
  | nil => rfl
  | cons u us ih =>
    rw [List.cons_append, firstOf_cons, firstOf_cons, bind_assoc]
    refine bind_congr fun o => ?_
    cases o with
    | matched tree stop => rfl
    | failed f => exact ih _

/-- **An alternation in an alternation comes to what its branches come to in the outer one.** -/
theorem firstOf_nested (failure : Option ParseError) (u : Trial) (us ts : List Trial) :
    firstOf c failure ((fun c => firstOf c none (u :: us)) :: ts) =
      firstOf c failure (u :: us ++ ts) := by
  rw [firstOf_cons, List.cons_append, firstOf_cons, firstOf_cons, bind_assoc]
  refine bind_congr fun o => ?_
  cases o with
  | matched tree stop => rfl
  | failed e =>
    change firstOf c (some e) us >>= _ = firstOf c (some (e.joinTo failure)) (us ++ ts)
    rw [firstOf_append, firstOf_joinTo, bind_assoc]
    exact bind_congr fun o => (pure_bind _ _).symm

/-! ## Once or more -/

/-- Trees that are as many as asked for are left as they are. -/
theorem padded_eq_self {min : Nat} {trees : List Tree} (h : min ≤ trees.length) :
    padded min trees = trees := by
  unfold padded
  split
  · rw [Nat.sub_eq_zero_of_le h]
    exact List.append_nil trees
  · rfl

/-- Where a round takes something, how many more there may be does not matter. -/
theorem rounds_eq_rounds (h : t.Honest False) {unbounded unbounded' : Bool} {n m : Nat}
    (hn : c.ahead.length < n) (hm : c.ahead.length < m) :
    rounds (fun _ => t) default unbounded n c = rounds (fun _ => t) default unbounded' m c := by
  have hmatch : ∀ {id : ParserId} {c stop : Cursor} {tree : Tree},
      Call.finishes (fun _ => t) id c (some (tree, stop)) → c ≤ stop ∧ stop ≠ c := by
    rintro id c stop tree ⟨kept, o, kept', hrun, ho⟩
    cases o with
    | failed e => cases ho
    | matched tree' stop' =>
      cases ho
      exact h _ _ _ _ _ hrun
  refine Attempt.rounds_eq_rounds ?_ (fun c tree hfinishes => (hmatch hfinishes).2 rfl) hn hm
  rintro id c m hfinishes tree stop rfl
  exact (hmatch hfinishes).1

/-- **Once or more is once and then any number of times**, where a round takes something. -/
theorem folded_repeated (h : t.Honest False) :
    (t.repeated 1 none).reshaped Tree.fold =
      folded [t, (t.repeated 0 none).reshaped Tree.fold] := by
  funext c
  refine StateT.ext fun kept => ?_
  rw [folded_eq_inOrder, inOrder, reshaped, transform, repeated, repetition, Option.getD_none,
    rounds, bind_assoc, bind_assoc, bind_assoc]
  refine run_bind_congr fun o kept' hround => ?_
  cases o with
  | failed e => rfl
  | matched tree stop =>
    obtain ⟨hle, hne⟩ := h _ _ _ _ _ hround
    have hposition : stop.position ≠ c.position := fun hsame =>
      hne (Cursor.eq_of_offset_le hle (Nat.le_of_eq (by rw [hsame])))
    have hless := Cursor.length_ahead_lt hle hne
    have hrest : rounds (fun _ => t) default true c.ahead.length stop =
        rounds (fun _ => t) default true (stop.ahead.length + 1) stop :=
      rounds_eq_rounds h hless (Nat.lt_succ_self _)
    simp only [Option.isNone_none, Bool.true_and, decide_eq_true_eq, if_neg hposition, hrest,
      inOrder, reshaped, transform, repeated, repetition, Option.getD_none, bind_assoc]
    refine congrArg (StateT.run · kept') (bind_congr fun r => ?_)
    obtain ⟨trees, mid, ending⟩ := r
    have hfold := congrArg (fun t => (pure (.matched t mid) : Attempt Outcome))
      (Tree.fold_branch_fold tree trees c.position stop.position)
    cases ending with
    | stalled =>
      rw [pure_bind, padded_eq_self (Nat.zero_le _), padded_eq_self (Nat.succ_pos _)]
      exact hfold.symm
    | full => exact hfold.symm
    | gaveUp start e =>
      rw [pure_bind]
      dsimp only
      rw [if_neg (by simp), if_neg (Nat.not_lt_zero _), bind_assoc, bind_assoc]
      exact bind_congr fun _ => hfold.symm

end Trial

namespace Grammar

variable {ds ds' : List Definition} {sensitive unrolled : Bool} {rule : String → Trial}

/-! ## Canonical forms -/

theorem Expr.trial_sequence (items : List Expr) :
    (Expr.sequence items).trial sensitive rule =
      Trial.folded (items.map (Expr.trial sensitive rule)) := by
  rw [Expr.trial, Expr.trials_eq_map]

theorem Expr.trial_alternation (items : List Expr) :
    (Expr.alternation items).trial sensitive rule =
      fun c => Trial.firstOf c none (items.map (Expr.trial sensitive rule)) := by
  rw [Expr.trial, Expr.trials_eq_map]

/-- The parts of an expression are tried as the expression is, in a sequence. -/
theorem Expr.spliced_parts (e : Expr) :
    Trial.spliced (e.parts.map (Expr.trial sensitive rule)) =
      Trial.spliced [e.trial sensitive rule] := by
  cases e with
  | sequence items =>
    rw [Expr.trial_sequence, Trial.spliced_folded]
    rfl
  | _ => rfl

theorem Expr.spliced_flatMap_parts (items : List Expr) :
    Trial.spliced ((items.flatMap Expr.parts).map (Expr.trial sensitive rule)) =
      Trial.spliced (items.map (Expr.trial sensitive rule)) := by
  induction items with
  | nil => rfl
  | cons item items ih =>
    rw [List.flatMap_cons, List.map_append, Trial.spliced_append, item.spliced_parts, ih,
      ← Trial.spliced_append, List.singleton_append, List.map_cons]

/-- The branches of an expression are tried as the expression is, in an alternation. -/
theorem Expr.firstOf_branches (e : Expr) (ts : List Trial) {c : Cursor}
    (failure : Option ParseError) :
    Trial.firstOf c failure (e.branches.map (Expr.trial sensitive rule) ++ ts) =
      Trial.firstOf c failure (e.trial sensitive rule :: ts) := by
  cases e with
  | alternation items =>
    cases items with
    | nil => rfl
    | cons first others =>
      rw [Expr.trial_alternation, List.map_cons, Trial.firstOf_nested]
      rfl
  | _ => rfl

theorem Expr.firstOf_flatMap_branches (items : List Expr) {c : Cursor}
    (failure : Option ParseError) :
    Trial.firstOf c failure ((items.flatMap Expr.branches).map (Expr.trial sensitive rule)) =
      Trial.firstOf c failure (items.map (Expr.trial sensitive rule)) := by
  induction items generalizing failure with
  | nil => rfl
  | cons item items ih =>
    rw [List.flatMap_cons, List.map_append, item.firstOf_branches, List.map_cons,
      Trial.firstOf_cons, Trial.firstOf_cons]
    refine bind_congr fun o => ?_
    cases Trial.failedAfter failure o with
    | matched tree stop => rfl
    | failed e => exact ih _

/-- A repetition is tried as it is written out, if a round takes something. -/
theorem Expr.trial_repeated {item : Expr} {min : Nat} {max : Option Nat}
    (h : unrolled = true → max = none → (item.trial sensitive rule).Honest False) :
    (item.repeated unrolled min max).trial sensitive rule =
      (Expr.repetition item min max).trial sensitive rule := by
  rcases item.repeated_cases unrolled min max with ⟨hunrolled, rfl, rfl, hform⟩ | hform
  · have hrepeated := Trial.folded_repeated (h hunrolled rfl)
    rw [hform, Expr.trial_sequence, List.map_append, List.map_singleton, Expr.trial, Expr.trial,
      hrepeated]
    refine Trial.folded_congr ?_
    rw [Trial.spliced_append, item.spliced_parts, ← Trial.spliced_append, List.singleton_append]
  · rw [hform]

theorem Expr.description_canonical (e : Expr) :
    (e.canonical unrolled).description sensitive = e.description sensitive := by
  cases e with
  | repetition item min max =>
    rw [Expr.canonical]
    rcases (item.canonical unrolled).repeated_cases unrolled min max with ⟨-, -, -, hform⟩ | hform
    · rw [hform, Expr.description, Expr.description]
    · rw [hform, Expr.description, Expr.description]
  | _ => simp only [Expr.canonical, Expr.description]

/-- **An expression is tried as its canonical form**, where repetitions are unrolled if what is
repeated without bound takes something. -/
theorem Expr.trial_canonical (e : Expr)
    (h : unrolled = true → ∀ item, e.Repeats item → (item.trial sensitive rule).Honest False) :
    (e.canonical unrolled).trial sensitive rule = e.trial sensitive rule := by
  induction e using Expr.induct with
  | step e ih =>
    have hitems : ∀ item ∈ e.items,
        (item.canonical unrolled).trial sensitive rule = item.trial sensitive rule :=
      fun item hitem => ih item hitem fun hunrolled x hx => h hunrolled x (.inside hitem hx)
    have hmap : ∀ items, items = e.items →
        (items.map (Expr.canonical unrolled)).map (Expr.trial sensitive rule) =
          items.map (Expr.trial sensitive rule) := by
      rintro items rfl
      rw [List.map_map]
      exact List.map_congr_left hitems
    cases e with
    | sequence items =>
      rw [Expr.canonical_sequence, Expr.trial_sequence, Expr.trial_sequence, ← hmap items rfl]
      exact Trial.folded_congr (Expr.spliced_flatMap_parts _)
    | alternation items =>
      rw [Expr.canonical_alternation, Expr.trial_alternation, Expr.trial_alternation,
        ← hmap items rfl]
      exact funext fun c => Expr.firstOf_flatMap_branches _ none
    | repetition item min max =>
      have hitem := hitems item (List.mem_singleton_self item)
      rw [Expr.canonical, Expr.trial_repeated, Expr.trial, Expr.trial, hitem]
      rintro hunrolled rfl
      rw [hitem]
      exact h hunrolled item .here
    | optional item =>
      rw [Expr.canonical, Expr.trial, Expr.trial, hitems item (List.mem_singleton_self item)]
    | absent item =>
      rw [Expr.canonical, Expr.trial, Expr.trial, hitems item (List.mem_singleton_self item),
        item.description_canonical]
    | _ => rfl

/-- **Rules of well-formed definitions are tried as their canonical forms**, where repetitions are
unrolled if patterns know what they match. -/
theorem ruleTrial_canonical (hds : WellFormed ds)
    (hpattern : unrolled = true → ∀ p, Occurs ds (.pattern p) → p.KnowsEmpty) (depth : Nat) :
    ruleTrial (ds.map (Definition.canonical unrolled)) sensitive depth =
      ruleTrial ds sensitive depth := by
  induction depth with
  | zero => rfl
  | succ depth ih =>
    funext name c
    have hfind : (ds.map (Definition.canonical unrolled)).find? (·.name = name) =
        (ds.find? (·.name = name)).map (Definition.canonical unrolled) := List.find?_map ..
    rw [ruleTrial, ruleTrial, ih, hfind]
    cases hd : ds.find? (·.name = name) with
    | none => rfl
    | some d =>
      -- what is repeated without bound in a well-formed definition is not nullable
      have hbody : (d.body.canonical unrolled).trial sensitive (ruleTrial ds sensitive depth) =
          d.body.trial sensitive (ruleTrial ds sensitive depth) := by
        refine d.body.trial_canonical fun hunrolled item hitem => ?_
        have hpattern := hpattern hunrolled
        obtain ⟨min, hoccurs⟩ := exists_occurs_iff.2 ⟨d, List.mem_of_find?_eq_some hd, hitem⟩
        exact (Expr.trial_honest hpattern (ruleTrial_honest hpattern depth) item
          (hoccurs.item (List.mem_singleton_self item))).imp (hds.advances item min hoccurs)
      change ((Trial.labelled ((d.body.canonical unrolled).trial _ _) d.label).reshaped _) c = _
      rw [hbody]

end Grammar

/-! ## Runs that are not stopped -/

namespace Graph

variable {g : Graph} {p q : ParserId}

theorem Leads.of_setMaxDepth {limit : Nat} (h : (g.setMaxDepth limit).Leads p q) : g.Leads p q := by
  induction h with
  | refl hp => exact .refl hp
  | step _ ho hlive ih => exact .step ih ho hlive

theorem Closed.setMaxDepth (h : g.Closed p) (limit : Nat) : (g.setMaxDepth limit).Closed p :=
  ⟨h.1, fun q hq => h.2 q hq.of_setMaxDepth⟩

/-- A run that the limit does not stop finishes. -/
theorem exists_parse_of_not_stopped {input : String} (hclosed : g.Closed p)
    (h : ¬ g.Stopped p input) :
    ∃ r, (g.parse g.maxDepth p (Cursor.start input)).run none = .ok r := by
  have hfate : fate (g.traced p input) =
      (g.parse g.maxDepth p (Cursor.start input)).run none :=
    fate_trace (r := .start) rfl rfl
  cases htraced : g.traced p input with
  | error m =>
    rw [htraced] at hfate
    exact absurd hfate.symm (parse_ne_misuse hclosed)
  | ok r =>
    have hgoing : r.2.stopped = none := goes_of_not_stopped h r.1 r.2 htraced
    rw [htraced, fate_of_going hgoing] at hfate
    exact ⟨_, hfate.symm⟩

end Graph

namespace Grammar

section

variable {g g' base base' : Graph} {sensitive unrolled : Bool} {rules : RuleTable}
  {ds ds' : List Definition} {text text' name : String} {id id' : ParserId} {c c' : Compilation}

theorem Rules.setMaxDepth (h : Rules g sensitive rules ds) (limit : Nat) :
    Rules (g.setMaxDepth limit) sensitive rules ds := by
  have hrefines : g.Refines (g.setMaxDepth limit) := fun _ _ hnode => Or.inl hnode
  intro name id hget
  obtain ⟨d, body, hfind, hnode, hbody⟩ := h name id hget
  exact ⟨d, body, hfind, hnode, hbody.mono hrefines⟩

/-- What a call of a rule finishes with, a trial of the rule does. -/
theorem ruleTrial_of_parse {room depth : Nat} {start : Cursor} {kept : Option ParseError}
    {r : Outcome × Option ParseError} (hrules : Rules g sensitive rules ds)
    (hget : rules.get? name = some id) (hrun : (g.parse room id start).run kept = .ok r)
    (hdepth : room ≤ depth) : (ruleTrial ds sensitive depth name start).run kept = .ok r := by
  -- a rule is tried as a reference to it
  have hreference : Realizes g sensitive rules id (.reference name .start) := .reference hget
  exact Trials.of_rules hrules room id _ hreference depth hdepth start kept r hrun

/-- **Rules that are tried alike run alike** where neither run is stopped. -/
theorem run_eq_of_ruleTrial {rules' : RuleTable} (hrules : Rules g sensitive rules ds)
    (hrules' : Rules g' sensitive rules' ds')
    (htrial : ∀ depth, ruleTrial ds sensitive depth = ruleTrial ds' sensitive depth)
    (hget : rules.get? name = some id) (hget' : rules'.get? name = some id')
    (hclosed : g.Closed id) (hclosed' : g'.Closed id') {input : String}
    (hstopped : ¬ g.Stopped id input) (hstopped' : ¬ g'.Stopped id' input) :
    g.run id input = g'.run id' input := by
  obtain ⟨r, hrun⟩ := Graph.exists_parse_of_not_stopped hclosed hstopped
  obtain ⟨r', hrun'⟩ := Graph.exists_parse_of_not_stopped hclosed' hstopped'
  have htried := ruleTrial_of_parse hrules hget hrun (Nat.le_max_left _ g'.maxDepth)
  have htried' := ruleTrial_of_parse hrules' hget' hrun' (Nat.le_max_right g.maxDepth _)
  rw [← htrial] at htried'
  cases htried.symm.trans htried'
  rw [Graph.run, Graph.run, hrun, hrun']

/-- Where nothing is bound, the names in the table are those of the definitions. -/
theorem Draft.Complete.mem_names {d : Draft} (h : d.Complete sensitive .empty ds rules) :
    name ∈ rules.names ↔ name ∈ ds.map Definition.name := by
  rw [RuleTable.mem_names]
  constructor
  · rintro ⟨id, hget⟩
    obtain ⟨e, he, rfl⟩ := h.exists_definition hget
    exact List.mem_map_of_mem he
  · intro hname
    obtain ⟨e, he, rfl⟩ := List.mem_map.1 hname
    obtain ⟨id, -, hget, -⟩ := h.defined e he
    exact ⟨id, hget⟩

/-- What a text states is accepted if it is well-formed, whether or not white space counts. -/
theorem compile_accepts_iff (hbase : base.Sound) (hdefs : definitions dialect text = .ok (.ok ds)) :
    (∃ c g, compile dialect text [] sensitive base = .ok (.ok c) g) ↔ WellFormed ds := by
  obtain ⟨r, r', g, g', hassemble, hassemble', hsame, haccepts⟩ :=
    assemble_both hbase hbase (definitions_ordered hdefs)
  rw [compile_of_definitions hdefs, ← haccepts]
  cases sensitive with
  | true =>
    rw [hassemble]
    exact ⟨fun ⟨c, _, h⟩ => ⟨c, by cases h; rfl⟩, fun ⟨c, h⟩ => ⟨c, g, by rw [h]⟩⟩
  | false =>
    rw [hassemble']
    constructor
    · rintro ⟨c, _, h⟩
      cases h
      cases r with
      | error e => exact nomatch hsame
      | ok c => exact ⟨c, rfl⟩
    · rintro ⟨c, rfl⟩
      cases r' with
      | error e => exact nomatch hsame
      | ok c' => exact ⟨c', g', rfl⟩

/-- **Grammars with the same canonical forms are accepted alike.** -/
theorem compile_accepts_canonical (hbase : base.Sound) (hbase' : base'.Sound)
    (hdefs : definitions dialect text = .ok (.ok ds))
    (hdefs' : definitions dialect text' = .ok (.ok ds'))
    (hform : ds.map (Definition.canonical unrolled) = ds'.map (Definition.canonical unrolled)) :
    (∃ c g, compile dialect text [] sensitive base = .ok (.ok c) g) ↔
      ∃ c g, compile dialect text' [] sensitive base' = .ok (.ok c) g := by
  rw [compile_accepts_iff hbase hdefs, compile_accepts_iff hbase' hdefs',
    ← wellFormed_canonical_iff, hform, wellFormed_canonical_iff]

/-- **And they run alike.** Where both are accepted, they have the same rules, and under any limits
the runs of a rule over an input end alike unless one of them is stopped. -/
theorem compile_run_canonical (hbase : base.Sound) (hbase' : base'.Sound)
    (hdefs : definitions dialect text = .ok (.ok ds))
    (hdefs' : definitions dialect text' = .ok (.ok ds'))
    (hform : ds.map (Definition.canonical unrolled) = ds'.map (Definition.canonical unrolled))
    (hpattern : unrolled = true → ∀ p, Occurs ds (.pattern p) → p.KnowsEmpty)
    (hcompile : compile dialect text [] sensitive base = .ok (.ok c) g)
    (hcompile' : compile dialect text' [] sensitive base' = .ok (.ok c') g') :
    c.table.names = c'.table.names ∧ ∀ name ∈ ds.map Definition.name, ∃ id id',
      c.table.get? name = some id ∧ c'.table.get? name = some id' ∧
      ∀ limit limit' input, ¬ (g.setMaxDepth limit).Stopped id input →
        ¬ (g'.setMaxDepth limit').Stopped id' input →
        (g.setMaxDepth limit).run id input = (g'.setMaxDepth limit').run id' input := by
  have hpattern' : unrolled = true → ∀ p, Occurs ds' (.pattern p) → p.KnowsEmpty :=
    fun hunrolled p hp => hpattern hunrolled p
      (occurs_pattern_canonical_iff.1 (hform ▸ occurs_pattern_canonical_iff.2 hp))
  have htrial : ∀ depth, ruleTrial ds sensitive depth = ruleTrial ds' sensitive depth := by
    intro depth
    rw [← ruleTrial_canonical ((compile_accepts_iff hbase hdefs).1 ⟨c, g, hcompile⟩) hpattern depth,
      ← ruleTrial_canonical ((compile_accepts_iff hbase' hdefs').1 ⟨c', g', hcompile'⟩) hpattern'
        depth, hform]
  have hnames : ds.map Definition.name = ds'.map Definition.name := by
    rw [← map_name_canonical, hform, map_name_canonical]
  obtain ⟨_, draft, hstated, rfl, hover, hcomplete⟩ := compile_nil_eq_ok hbase hcompile
  cases hdefs.symm.trans hstated
  obtain ⟨_, draft', hstated', rfl, hover', hcomplete'⟩ := compile_nil_eq_ok hbase' hcompile'
  cases hdefs'.symm.trans hstated'
  refine ⟨?_, fun name hname => ?_⟩
  · refine ItemSet.eq_of_ascending c.table.ascending c'.table.ascending fun name => ?_
    exact hcomplete.mem_names.trans (hnames ▸ hcomplete'.mem_names.symm)
  · obtain ⟨id, hget⟩ := RuleTable.mem_names.1 (hcomplete.mem_names.2 hname)
    obtain ⟨id', hget'⟩ := RuleTable.mem_names.1 (hcomplete'.mem_names.2 (hnames ▸ hname))
    refine ⟨id, id', hget, hget', fun limit limit' input hstopped hstopped' => ?_⟩
    exact run_eq_of_ruleTrial (hcomplete.rules.setMaxDepth limit)
      (hcomplete'.rules.setMaxDepth limit') htrial hget hget'
      ((hover.closed (hcomplete.mem_created hget)).setMaxDepth limit)
      ((hover'.closed (hcomplete'.mem_created hget')).setMaxDepth limit') hstopped hstopped'

end

end Grammar

end ParserGraph
