import ParserGraph.Proofs.Grammar.Agreement
import ParserGraph.Proofs.Tree.Texts

/-!
# Spelling — compiled trees keep the text that was read

Evaluating a grammar puts a leaf where it takes text, and skips white space
behind it unless that counts. Everything else only moves leaves about: what is
looked at is not taken, and what was tried in vain leaves nothing. So the
texts of a tree that is evaluated spell what was read for it, whatever the
expression (`spelled_invariant`), and runs of compiled rules do as evaluation
does.
-/

namespace ParserGraph.Grammar

/-- What may stand between texts: white space, unless it counts. -/
def isGap (sensitive : Bool) (x : Char) : Bool := !sensitive && CharSet.whiteSpace.contains x

/-- The texts of a match spell what was read for it. -/
def Spelled (sensitive : Bool) (c : Cursor) (m : Match Tree) : Prop :=
  ∀ t stop, m = some (t, stop) → c.Spells (isGap sensitive) t.texts stop

/-- The texts of several trees together spell what was read for them. -/
def SpelledAll (sensitive : Bool) (c : Cursor) (m : Match (List Tree)) : Prop :=
  ∀ ts stop, m = some (ts, stop) → c.Spells (isGap sensitive) (ts.flatMap Tree.texts) stop

section

variable {sensitive : Bool} {c mid : Cursor}

theorem spelled_empty (position : Position) : Spelled sensitive c (some (.empty position, c)) := by
  intro t stop h
  cases h
  rw [Tree.texts_empty]
  exact .refl _ c

theorem spelledAll_nil : SpelledAll sensitive c (some ([], c)) := by
  intro ts stop h
  cases h
  exact .refl _ c

/-- A tree goes before others where it was read before them. -/
theorem SpelledAll.cons {t : Tree} {m : Match (List Tree)} (hm : SpelledAll sensitive mid m)
    (ht : Spelled sensitive c (some (t, mid))) : SpelledAll sensitive c (m.mapResult (t :: ·)) := by
  intro ts stop h
  obtain ⟨ts', hts, rfl⟩ := Match.mapResult_eq_some_iff.1 h
  rw [List.flatMap_cons]
  exact (ht t mid rfl).append (hm ts' stop hts)

/-- Folding trees into one keeps what they spell. -/
theorem SpelledAll.fold {m : Match (List Tree)} (hm : SpelledAll sensitive c m)
    (position : Position) :
    Spelled sensitive c (m.mapResult fun ts => (Tree.branch ts position).fold) := by
  intro t stop h
  obtain ⟨ts, hts, rfl⟩ := Match.mapResult_eq_some_iff.1 h
  have hfold : (Tree.branch ts position).fold.texts = ts.flatMap Tree.texts :=
    (Tree.texts_fold rfl).trans (Tree.texts_branch ts position)
  rw [hfold]
  exact hm ts stop hts

/-- **A leaf spells what it takes**, and skips a gap. -/
theorem spelled_leafOver {taken : Option Nat} (h : ∀ n, taken = some n → n ≤ c.ahead.length) :
    Spelled sensitive c (leafOver sensitive c taken) := by
  intro t stop hleaf
  obtain ⟨n, hn, hr⟩ := Option.map_eq_some_iff.1 hleaf
  cases hr
  have hread : c.Reads (c.ahead.take n) (c.advance n) := c.reads_take (h n hn)
  cases sensitive with
  | true => exact .leaf hread .nil fun _ hx => absurd hx List.not_mem_nil
  | false =>
    have hspaces := (c.advance n).reads_run CharSet.whiteSpace.contains
    refine .leaf hread hspaces fun x hx => ?_
    rw [isGap, Bool.not_false, Bool.true_and]
    exact Cursor.accepts_of_mem_run hx

/-- **What an expression evaluates to spells what was read for it.** -/
theorem spelled_invariant (sensitive : Bool) :
    Invariant sensitive (fun c t stop => Spelled sensitive c (some (t, stop)))
      fun c ts stop => SpelledAll sensitive c (some (ts, stop)) where
  leaf := fun hn h => h ▸ spelled_leafOver hn
  empty := fun c => spelled_empty c.position
  nil := fun _ => spelledAll_nil
  cons := fun ht hts => SpelledAll.cons hts ht
  fold := fun hts => hts.fold _

end

/-- **So does what a rule evaluates to**, to whatever depth rules are followed. -/
theorem evaluate_spells {ds : List Definition} {sensitive : Bool} {depth : Nat} {name : String}
    {c : Cursor} {m : Match Tree} (h : evaluate ds sensitive depth name c = some m) :
    Spelled sensitive c m := by
  rintro t stop rfl
  -- a tag changes no text
  have htag : ∀ (name : String) {c stop : Cursor} {t : Tree},
      Spelled sensitive c (some (t, stop)) → Spelled sensitive c (some (t.tagged name, stop)) := by
    intro name c stop t ht _ _ h
    cases h
    rw [Tree.texts_tagged]
    exact ht t stop rfl
  obtain ⟨d, -, -, t', ht', rfl⟩ :=
    evaluate_keeps (spelled_invariant sensitive) (fun d _ => htag d.name) h
  exact htag name ht' _ _ rfl

/-! ## Runs of compiled rules -/

/-- A compiled rule that matches leaves a tree whose texts spell what it read. -/
theorem compile_spells {g g' : Graph} {dialect : Pattern.Dialect} {text : String}
    {sensitive : Bool} {compilation : Compilation}
    (hg : g.Built) (hcompile : compile dialect text [] sensitive g = .ok (.ok compilation) g')
    {name : String} {id : ParserId} (hget : compilation.table.get? name = some id) {room : Nat}
    {c stop : Cursor} {t : Tree} (h : (g'.parse room).finishes id c (some (t, stop))) :
    c.Spells (isGap sensitive) t.texts stop := by
  obtain ⟨ds, d, -, rfl, -, hcomplete⟩ := compile_nil_eq_ok hg.sound hcompile
  exact evaluate_spells (evaluate_of_finishes hcomplete.rules hget h) t stop rfl

/-- **Compiled trees lose no text**, in whatever dialect. What a run of a rule read is the texts of
the leaves of its tree, in order, with nothing but white space before, between and behind them;
where white space counts, the leaves together hold exactly what was read. And each text is what the
input holds at the position of its leaf. -/
theorem compile_run_texts {g g' : Graph} {dialect : Pattern.Dialect} {text : String}
    {sensitive : Bool} {compilation : Compilation} (hg : g.Built)
    (hcompile : compile dialect text [] sensitive g = .ok (.ok compilation) g')
    {name : String} {id : ParserId} (hget : compilation.table.get? name = some id) {input : String}
    {room : Nat} {kept kept' : Option ParseError} {t : Tree} {stop : Cursor}
    (hrun : ((g'.parse room) id (Cursor.start input)).run kept = .ok (.matched t stop, kept')) :
    (sensitive = true →
      String.join (t.leafNodes.map Tree.contents) = (Cursor.start input).upTo stop) ∧
    (∃ first gaps, gaps.length = t.texts.length ∧
      (∀ w ∈ first :: gaps, ∀ x ∈ w, CharSet.whiteSpace.contains x) ∧
      ((Cursor.start input).upTo stop).toList =
        first ++ (List.zipWith (fun text w => text.1.toList ++ w) t.texts gaps).flatten) ∧
    ∀ leaf ∈ t.leafNodes, leaf.contents ≠ "" →
      ∃ front back, input.toList = front ++ leaf.contents.toList ++ back ∧
        bytes front = leaf.position.offset := by
  have hspells : (Cursor.start input).Spells (isGap sensitive) t.texts stop :=
    compile_spells hg hcompile hget ⟨_, _, _, hrun, rfl⟩
  refine ⟨?_, ?_, fun leaf hleaf htext => ?_⟩
  · rintro rfl
    rw [hspells.reads_of_no_gap.upTo, ← String.toList_inj, String.toList_ofList,
      Tree.join_contents_leafNodes]
  · obtain ⟨first, gaps, hlength, hgaps, hread⟩ := hspells.exists_gaps
    refine ⟨first, gaps, hlength, fun w hw x hx => ?_, ?_⟩
    · exact ((Bool.and_eq_true _ _).mp (hgaps w hw x hx)).2
    · rw [hread.upTo, String.toList_ofList]
  · refine hspells.exists_slice (Cursor.le_refl _) (leaf.contents, leaf.position) ?_
    exact List.mem_map.2 ⟨leaf, List.mem_filter.2 ⟨hleaf, decide_eq_true htext⟩, rfl⟩

/-- A run over text with blanks in it: the blanks are the gaps behind the two texts. -/
theorem compile_run_texts_blanks :
    Graph.empty.Built ∧
      compile .plain "a:'x'a|'y';" [] false Graph.empty =
        .ok (.ok ⟨RuleTable.empty.insert "a" ⟨0, 0⟩, []⟩) recursiveGraph ∧
      (RuleTable.empty.insert "a" ⟨0, 0⟩).get? "a" = some ⟨0, 0⟩ ∧
      ∃ kept', ((recursiveGraph.parse 16) ⟨0, 0⟩ (Cursor.start "x y ")).run none =
          .ok (.matched recursiveTree ((Cursor.start "x y ").advance 4), kept') ∧
        (∃ first gaps, gaps.length = recursiveTree.texts.length ∧
          (∀ w ∈ first :: gaps, ∀ x ∈ w, CharSet.whiteSpace.contains x) ∧
          ((Cursor.start "x y ").upTo ((Cursor.start "x y ").advance 4)).toList = first ++
            (List.zipWith (fun text w => text.1.toList ++ w) recursiveTree.texts gaps).flatten) ∧
        ∀ leaf ∈ recursiveTree.leafNodes, leaf.contents ≠ "" →
          ∃ front back, "x y ".toList = front ++ leaf.contents.toList ++ back ∧
            bytes front = leaf.position.offset := by
  have hrun : ∃ kept', ((recursiveGraph.parse 16) ⟨0, 0⟩ (Cursor.start "x y ")).run none =
      .ok (.matched recursiveTree ((Cursor.start "x y ").advance 4), kept') := ⟨_, rfl⟩
  obtain ⟨kept', hrun⟩ := hrun
  have hget : (RuleTable.empty.insert "a" ⟨0, 0⟩).get? "a" = some ⟨0, 0⟩ := rfl
  exact ⟨.empty, compile_recursive, hget, kept', hrun,
    (compile_run_texts .empty compile_recursive hget hrun).2⟩

end ParserGraph.Grammar
