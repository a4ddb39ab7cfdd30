import ParserGraph.Proofs.Text.Json
import ParserGraph.Proofs.Tree.Decoding
import ParserGraph.Proofs.Tree.Normal

/-!
# Showing — a tree or an error is told by what is written of it

The text of a tree has a line for each row of its listing. A line ends where
its first line break stands, since quoting leaves none in a text, and what
stands before it can be taken apart again: the blanks in front tell the depth,
no tag reaches past the first colon, and quoting keeps different texts
different. So the text of a tree whose tags are plain tells all that it shows
(`Tree.text_eq_iff`). It does not show where an inner node starts, nor whether a
tag is missing or is an underscore. The tags of compiled trees are plain, since
names are (`Tree.Kept.plain`).

As JSON a tree is told but for byte offsets, and an error in full. The line of
an error says where it is and what was expected there
(`ParseError.saidBy_message`).
-/

namespace ParserGraph

/-! ## Rows as lines -/

/-- A tag without a blank, a colon or a line break in it. -/
def PlainTag (tag : String) : Prop := ∀ c ∈ tag.toList, c ≠ ' ' ∧ c ≠ ':' ∧ c ≠ '\n'

namespace Row

variable {r r' : Row} {rows rows' : List Row}

/-- The tag in the line of a row; a node that has none gets an underscore. -/
def shownTag (r : Row) : String := if r.tag = "" then "_" else r.tag

/-- What follows the tag in the line of a row: the place and the text of a leaf. -/
def shownText (r : Row) : String :=
  if r.children = 0 then
    ":" ++ toString r.line ++ ":" ++ toString r.column ++ " '" ++ Quoted.ofString r.contents ++ "'"
  else ""

/-- A row on a line: two blanks for each level, the tag, and for a leaf its place and text. -/
def shown (r : Row) : String :=
  String.ofList (List.replicate (2 * r.depth) ' ') ++ r.shownTag ++ r.shownText

/-- The row without what its line does not show: the place and the text of an inner node, and
whether there is no tag or the tag is an underscore. -/
def visible (r : Row) : Row :=
  if r.children = 0 then { r with tag := r.shownTag }
  else { r with tag := r.shownTag, contents := "", line := 0, column := 0 }

theorem shownTag_ne_empty (r : Row) : r.shownTag ≠ "" := by
  unfold shownTag
  split
  · decide
  · assumption

theorem tag_visible (r : Row) : r.visible.tag = r.shownTag := by
  unfold visible
  split <;> rfl

theorem shownTag_visible (r : Row) : r.visible.shownTag = r.shownTag := by
  have hne : r.visible.tag ≠ "" := r.tag_visible ▸ r.shownTag_ne_empty
  rw [shownTag, if_neg hne, tag_visible]

/-- What a line does not show makes no difference to it. -/
theorem shown_visible (r : Row) : r.visible.shown = r.shown := by
  have htag := r.shownTag_visible
  have hdepth : r.visible.depth = r.depth := by unfold visible; split <;> rfl
  have htext : r.visible.shownText = r.shownText := by
    unfold visible shownText
    split <;> rfl
  rw [shown, shown, htag, hdepth, htext]

theorem toList_shown (r : Row) : r.shown.toList =
    List.replicate (2 * r.depth) ' ' ++ (r.shownTag.toList ++ r.shownText.toList) := by
  simp [shown]

/-- What follows the tag is nothing or begins with a colon. -/
theorem toList_shownText (r : Row) : r.shownText.toList =
    if r.children = 0 then
      ':' :: (Nat.toDigits 10 r.line ++ ':' :: (Nat.toDigits 10 r.column ++
        ' ' :: '\'' :: (Quoted.escape r.contents.toList ++ ['\''])))
    else [] := by
  unfold shownText
  split
  · simp [Nat.toList_repr, Quoted.ofString]
  · rfl

/-- A tag that is shown is not empty, and it is plain if the tag is. -/
theorem plainTag_shownTag (h : PlainTag r.tag) :
    r.shownTag.toList ≠ [] ∧ PlainTag r.shownTag := by
  refine ⟨by simpa using r.shownTag_ne_empty, ?_⟩
  unfold shownTag
  split
  · simp [PlainTag]
  · exact h

theorem colon_notMem_shownTag (h : PlainTag r.tag) : ':' ∉ r.shownTag.toList := fun hmem =>
  ((plainTag_shownTag h).2 _ hmem).2.1 rfl

/-- Blanks in front of something else are counted by the whole. -/
theorem eq_of_replicate_append {m n : Nat} {rest rest' : List Char} (hrest : ' ' ∉ rest.head?)
    (hrest' : ' ' ∉ rest'.head?)
    (h : List.replicate m ' ' ++ rest = List.replicate n ' ' ++ rest') : m = n ∧ rest = rest' := by
  induction m generalizing n with
  | zero =>
    cases n with
    | zero => exact ⟨rfl, h⟩
    | succ n =>
      have hblank : rest = ' ' :: (List.replicate n ' ' ++ rest') := h
      exact absurd (hblank ▸ rfl) hrest
  | succ m ih =>
    cases n with
    | zero =>
      have hblank : rest' = ' ' :: (List.replicate m ' ' ++ rest) := h.symm
      exact absurd (hblank ▸ rfl) hrest'
    | succ n =>
      obtain ⟨rfl, hsame⟩ := ih (List.cons.inj h).2
      exact ⟨rfl, hsame⟩

theorem newline_notMem_shownText (r : Row) : '\n' ∉ r.shownText.toList := by
  have hdigits : ∀ n, '\n' ∉ Nat.toDigits 10 n := notMem_toDigits_ten rfl
  rw [toList_shownText]
  split
  · simp [hdigits, Quoted.newline_notMem_escape]
  · exact List.not_mem_nil

/-- A row is on one line. -/
theorem newline_notMem_shown (h : PlainTag r.tag) : '\n' ∉ r.shown.toList := by
  intro hmem
  rw [toList_shown] at hmem
  rcases List.mem_append.1 hmem with hblank | hmem
  · exact absurd (List.eq_of_mem_replicate hblank) (by decide)
  · rcases List.mem_append.1 hmem with htag | htext
    · exact ((plainTag_shownTag h).2 _ htag).2.2 rfl
    · exact r.newline_notMem_shownText htext

/-- The line of a leaf tells its tag, its place and its text. -/
theorem eq_of_leaf (h : PlainTag r.tag) (h' : PlainTag r'.tag) (hleaf : r.children = 0)
    (hleaf' : r'.children = 0)
    (hsame : r.shownTag.toList ++ r.shownText.toList = r'.shownTag.toList ++ r'.shownText.toList) :
    r.shownTag = r'.shownTag ∧ r.line = r'.line ∧ r.column = r'.column ∧
      r.contents = r'.contents := by
  have hcolon : ∀ n, ':' ∉ Nat.toDigits 10 n := notMem_toDigits_ten rfl
  have hblank : ∀ n, ' ' ∉ Nat.toDigits 10 n := notMem_toDigits_ten rfl
  rw [toList_shownText, toList_shownText, if_pos hleaf, if_pos hleaf'] at hsame
  obtain ⟨htag, hsame⟩ := eq_of_append_mark (colon_notMem_shownTag h) (colon_notMem_shownTag h')
    hsame
  obtain ⟨hline, hsame⟩ := eq_of_append_mark (hcolon _) (hcolon _) hsame
  obtain ⟨hcolumn, hsame⟩ := eq_of_append_mark (hblank _) (hblank _) hsame
  obtain ⟨hcontents, -⟩ := Quoted.escape_append_inj (List.cons.inj hsame).2
  exact ⟨String.toList_inj.1 htag, toDigits_ten_injective hline, toDigits_ten_injective hcolumn,
    String.toList_inj.1 hcontents⟩

/-- What stands behind the blanks does not begin with another. -/
theorem blank_notMem_head_shown (h : PlainTag r.tag) :
    ' ' ∉ (r.shownTag.toList ++ r.shownText.toList).head? := by
  intro hmem
  obtain ⟨hne, hplain⟩ := plainTag_shownTag h
  obtain ⟨c, tag, htag⟩ := List.exists_cons_of_ne_nil hne
  rw [htag] at hmem
  exact (hplain c (htag ▸ List.mem_cons_self)).1 (Option.some.inj hmem)

/-- **A line tells how deep its node lies**, and all that it shows of a node whose number of
children is known. -/
theorem eq_of_shown (h : PlainTag r.tag) (h' : PlainTag r'.tag) (hshown : r.shown = r'.shown) :
    r.depth = r'.depth ∧ (r.children = r'.children → r.visible = r'.visible) := by
  rw [← String.toList_inj, toList_shown, toList_shown] at hshown
  obtain ⟨hblanks, hsame⟩ := eq_of_replicate_append (blank_notMem_head_shown h)
    (blank_notMem_head_shown h') hshown
  have hdepth : r.depth = r'.depth := by omega
  refine ⟨hdepth, fun hchildren => ?_⟩
  by_cases hleaf : r.children = 0
  · have hleaf' : r'.children = 0 := hchildren ▸ hleaf
    obtain ⟨htag, hline, hcolumn, hcontents⟩ := eq_of_leaf h h' hleaf hleaf' hsame
    rw [visible, visible, if_pos hleaf, if_pos hleaf', hdepth, htag, hline, hcolumn, hcontents,
      hchildren]
  · have hinner' : r'.children ≠ 0 := hchildren ▸ hleaf
    rw [toList_shownText, toList_shownText, if_neg hleaf, if_neg hinner', List.append_nil,
      List.append_nil] at hsame
    rw [visible, visible, if_neg hleaf, if_neg hinner', hdepth, String.toList_inj.1 hsame,
      hchildren]

/-! ## Listings as lines -/

/-- In a listing, the depths tell the numbers of children. -/
theorem Agree.children_eq (h : Agree rows) (h' : Agree rows')
    (hdepths : rows.map depth = rows'.map depth) : rows.map children = rows'.map children := by
  have hcount : ∀ (d : Nat) (rows : List Row), (deeper d rows).countP (·.depth = d + 1) =
      ((rows.map depth).takeWhile (d < ·)).countP (· = d + 1) := by
    intro d rows
    rw [List.takeWhile_map, List.countP_map]
    rfl
  induction rows generalizing rows' with
  | nil =>
    rw [List.map_eq_nil_iff.1 hdepths.symm]
  | cons r rows ih =>
    cases rows' with
    | nil => exact nomatch hdepths
    | cons r' rows' =>
      obtain ⟨-, hchildren, hagree⟩ := h
      obtain ⟨-, hchildren', hagree'⟩ := h'
      obtain ⟨hdepth, hbehind⟩ := List.cons.inj hdepths
      rw [List.map_cons, List.map_cons, ih hagree hagree' hbehind, hchildren, hchildren', hcount,
        hcount, hdepth, hbehind]

/-- Where each of some rows tells more than a part of it, so do all of them together. -/
theorem map_eq_of_map {α β : Type} {f : Row → α} {g : Row → β}
    (hfg : ∀ r ∈ rows, ∀ r' ∈ rows', f r = f r' → g r = g r') (h : rows.map f = rows'.map f) :
    rows.map g = rows'.map g := by
  induction rows generalizing rows' with
  | nil => rw [List.map_eq_nil_iff.1 h.symm]
  | cons r rows ih =>
    cases rows' with
    | nil => exact nomatch h
    | cons r' rows' =>
      obtain ⟨hr, hrows⟩ := List.cons.inj h
      have hsame : g r = g r' := hfg r List.mem_cons_self r' List.mem_cons_self hr
      have hbehind : rows.map g = rows'.map g := ih (fun s hs s' hs' =>
        hfg s (List.mem_cons_of_mem _ hs) s' (List.mem_cons_of_mem _ hs')) hrows
      rw [List.map_cons, List.map_cons, hsame, hbehind]

/-- **The lines of a listing tell all that they show.** The depths tell how many children each node
has, and so which of them are leaves. -/
theorem Agree.visible_eq (h : Agree rows) (h' : Agree rows') (hplain : ∀ r ∈ rows, PlainTag r.tag)
    (hplain' : ∀ r ∈ rows', PlainTag r.tag) (hshown : rows.map shown = rows'.map shown) :
    rows.map visible = rows'.map visible := by
  have hdepths : rows.map depth = rows'.map depth :=
    map_eq_of_map (fun r hr r' hr' hsame => (eq_of_shown (hplain r hr) (hplain' r' hr') hsame).1)
      hshown
  have hboth : rows.map (fun r => (r.shown, r.children)) =
      rows'.map fun r => (r.shown, r.children) := by
    rw [← List.zip_map', ← List.zip_map', hshown, h.children_eq h' hdepths]
  refine map_eq_of_map (fun r hr r' hr' hsame => ?_) hboth
  obtain ⟨hline, hchildren⟩ := Prod.mk.inj hsame
  exact (eq_of_shown (hplain r hr) (hplain' r' hr') hline).2 hchildren

end Row

namespace Tree

/-! ## What the text of a tree shows -/

mutual

/-- The tree without what its text does not show: byte offsets, the places and the texts of inner
nodes, and whether there is no tag or the tag is an underscore. -/
def visible : Tree → Tree
  | ⟨tag, contents, position, children⟩ =>
    let shownTag := if tag = "" then "_" else tag
    if children.isEmpty then ⟨shownTag, contents, ⟨0, position.line, position.column⟩, []⟩
    else ⟨shownTag, "", ⟨0, 0, 0⟩, visibleAll children⟩

/-- Several trees without what their texts do not show. -/
def visibleAll : List Tree → List Tree
  | [] => []
  | t :: ts => visible t :: visibleAll ts

end

/-- A tree with plain tags, in each of its nodes. -/
def Plain (t : Tree) : Prop := ∀ r ∈ t.rows, PlainTag r.tag

/-- A tag is made up of its components and the bars between them. -/
theorem mem_components {c : Char} {tag : List Char} (h : c ∈ tag) :
    c = '|' ∨ ∃ part ∈ components tag, c ∈ part := by
  induction tag with
  | nil => exact absurd h List.not_mem_nil
  | cons d rest ih =>
    rw [components]
    rcases List.mem_cons.1 h with rfl | hrest
    · split
      · next hbar => exact .inl hbar
      · split
        · exact .inr ⟨[c], List.mem_cons_self, List.mem_cons_self⟩
        · next first others _ => exact .inr ⟨c :: first, List.mem_cons_self, List.mem_cons_self⟩
    · -- the component of the rest that holds the character gets longer at most
      obtain hbar | ⟨part, hpart, hc⟩ := ih hrest
      · exact .inl hbar
      refine .inr ?_
      split
      · exact ⟨part, List.mem_cons_of_mem _ hpart, hc⟩
      · split
        · next hnone => exact absurd (hnone ▸ hpart) List.not_mem_nil
        · next first others hsome =>
          rw [hsome] at hpart
          rcases List.mem_cons.1 hpart with rfl | hothers
          · exact ⟨d :: part, List.mem_cons_self, List.mem_cons_of_mem _ hc⟩
          · exact ⟨part, List.mem_cons_of_mem _ hothers, hc⟩

/-- Names that are plain make plain tags. -/
theorem Kept.plain {names : List String} {t : Tree} (h : t.Kept names)
    (hnames : ∀ name ∈ names, PlainTag name) : t.Plain := by
  intro r hr
  obtain ⟨⟨depth, node⟩, hnode, rfl⟩ := List.mem_map.1 hr
  intro c hc
  cases h.of_mem_preorder node (List.mem_map_of_mem hnode) with
  | text _ => exact absurd hc (by simp [row, leaf])
  | named _ hparts _ _ =>
    obtain rfl | ⟨part, hpart, hmem⟩ := mem_components hc
    · decide
    · exact hnames _ (hparts part hpart) c (by simpa using hmem)

theorem children_visible (t : Tree) : t.visible.children = visibleAll t.children := by
  obtain ⟨tag, contents, position, children⟩ := t
  cases children with
  | nil => rfl
  | cons t ts => rfl

theorem length_visibleAll (ts : List Tree) : (visibleAll ts).length = ts.length := by
  induction ts with
  | nil => rfl
  | cons t ts ih => rw [visibleAll, List.length_cons, List.length_cons, ih]

/-- The row of a node leaves out just as much. -/
theorem row_visible (depth : Nat) (t : Tree) : t.visible.row depth = (t.row depth).visible := by
  obtain ⟨tag, contents, position, children⟩ := t
  cases children with
  | nil => rfl
  | cons t ts =>
    have hchildren : (visibleAll (t :: ts)).length = (t :: ts).length := length_visibleAll _
    by_cases htag : tag = "" <;> simp [visible, row, Row.visible, Row.shownTag, hchildren, htag]

mutual

theorem withoutOffsets_visible : ∀ t : Tree, t.visible.withoutOffsets = t.visible
  | ⟨tag, contents, position, children⟩ => by
    rw [visible]
    split
    · rfl
    · rw [withoutOffsets, withoutOffsetsAll_visibleAll children]

theorem withoutOffsetsAll_visibleAll :
    ∀ ts : List Tree, withoutOffsetsAll (visibleAll ts) = visibleAll ts
  | [] => rfl
  | t :: ts => by
    rw [visibleAll, withoutOffsetsAll, withoutOffsets_visible t, withoutOffsetsAll_visibleAll ts]

end

mutual

/-- The listing leaves out just as much. -/
theorem rowsFrom_visible (depth : Nat) :
    ∀ t : Tree, t.visible.rowsFrom depth = (t.rowsFrom depth).map Row.visible
  | ⟨tag, contents, position, children⟩ => by
    rw [rowsFrom_eq, rowsFrom_eq, row_visible, children_visible, List.map_cons,
      rowsAll_visibleAll (depth + 1) children]

theorem rowsAll_visibleAll (depth : Nat) :
    ∀ ts : List Tree, rowsAll depth (visibleAll ts) = (rowsAll depth ts).map Row.visible
  | [] => rfl
  | t :: ts => by
    rw [visibleAll, rowsAll_cons, rowsAll_cons, List.map_append, rowsFrom_visible depth t,
      rowsAll_visibleAll depth ts]

end

/-- Listings show the same just where the trees do. -/
theorem visible_eq_iff {t u : Tree} :
    t.visible = u.visible ↔ t.rows.map Row.visible = u.rows.map Row.visible := by
  have hrows : ∀ t : Tree, t.rows.map Row.visible = t.visible.rows := fun t =>
    (rowsFrom_visible 0 t).symm
  rw [hrows, hrows, rows_eq_iff, withoutOffsets_visible, withoutOffsets_visible]

theorem agree_rows (t : Tree) : Row.Agree t.rows := by
  have hlisting := isListing_rows t
  rw [rows_eq_rowsFrom, rowsFrom_eq] at hlisting ⊢
  exact hlisting.2.2

/-- **The text of a tree has a line for each row of its listing.** -/
theorem text_eq (t : Tree) : t.text = String.join (t.rows.map fun r => r.shown ++ "\n") := by
  have hline : ∀ p : Nat × Tree, p.2.line p.1 = (p.2.row p.1).shown ++ "\n" := by
    intro ⟨depth, tag, contents, position, children⟩
    rw [← String.toList_inj]
    cases children with
    | nil =>
      by_cases htag : tag = "" <;>
        simp [line, isLeaf, row, Row.shown, Row.shownTag, Row.shownText, Position.text, htag]
    | cons t ts =>
      by_cases htag : tag = "" <;>
        simp [line, isLeaf, row, Row.shown, Row.shownTag, Row.shownText, htag]
  rw [text, rows, List.map_map]
  exact congrArg String.join (List.map_congr_left fun p _ => hline p)

/-- **The text of a tree with plain tags tells what it shows**: two of them have the same text just
where they have the same tags, the same children and the same leaves in the same places. -/
theorem text_eq_iff {t u : Tree} (ht : t.Plain) (hu : u.Plain) :
    t.text = u.text ↔ t.visible = u.visible := by
  have hlines : ∀ t : Tree, t.text.toList =
      ((t.rows.map Row.shown).map String.toList).flatMap (· ++ ['\n']) := by
    intro t
    simp [text_eq, String.toList_join, List.flatMap_map]
  rw [visible_eq_iff]
  constructor
  · intro h
    rw [← String.toList_inj, hlines, hlines] at h
    have hends : ∀ {t : Tree}, t.Plain → ∀ l ∈ (t.rows.map Row.shown).map String.toList,
        '\n' ∉ l := by
      intro t ht l hl
      obtain ⟨r, hr, rfl⟩ := List.mem_map.1 (List.map_map ▸ hl)
      exact Row.newline_notMem_shown (ht r hr)
    have hshown : t.rows.map Row.shown = u.rows.map Row.shown :=
      List.map_injective_iff.2 (fun _ _ => String.toList_inj.1)
        (eq_of_flatMap_mark (hends ht) (hends hu) h)
    exact (agree_rows t).visible_eq (agree_rows u) ht hu hshown
  · intro h
    have hshown : ∀ t : Tree, t.rows.map Row.shown = (t.rows.map Row.visible).map Row.shown := by
      intro t
      rw [List.map_map]
      exact List.map_congr_left fun r _ => r.shown_visible.symm
    rw [← String.toList_inj, hlines, hlines, hshown, hshown, h]

/-- **The JSON of a tree tells it, but for byte offsets.** -/
theorem json_eq_iff {t u : Tree} : t.json = u.json ↔ t.withoutOffsets = u.withoutOffsets := by
  have hrow : Function.Injective Row.json := by
    rintro ⟨_, _, _, _, _, _⟩ ⟨_, _, _, _, _, _⟩ h
    simpa [Row.json] using h
  rw [← rows_eq_iff]
  constructor
  · intro h
    exact List.map_injective_iff.2 hrow (Json.array.inj (Json.text_injective h))
  · intro h
    rw [json, json, h]

end Tree

/-! ## Errors -/

namespace ParseError

/-- What a line says of an error: its place, and then the message it has of its own, or else
everything that was expected and what stands there. -/
def SaidBy (e : ParseError) (line : String) : Prop :=
  ∃ summary : String,
    line = toString e.position.line ++ ":" ++ toString e.position.column ++ ": error: " ++ summary ∧
    (∀ message, e.failure = some message → summary = message) ∧
    (e.failure = none → (∀ item ∈ e.expected, item.toList <:+: summary.toList) ∧
      (∀ c, e.found = some c → ("'" ++ Quoted.ofChar c ++ "'").toList <:+ summary.toList) ∧
      (e.found = none → "end of input".toList <:+ summary.toList))

/-- Each of some items is part of the words for them. -/
theorem infix_choiceText {item : String} {items : List String} (h : item ∈ items) :
    item.toList <:+: (choiceText items).toList := by
  induction items using choiceText.induct with
  | case1 => exact absurd h List.not_mem_nil
  | case2 only =>
    rw [List.mem_singleton.1 h]
    exact List.infix_rfl
  | case3 first last =>
    rw [choiceText, String.toList_append, String.toList_append, List.append_assoc]
    rcases List.mem_cons.1 h with rfl | h
    · exact (List.prefix_append _ _).isInfix
    · rw [List.mem_singleton.1 h, ← List.append_assoc]
      exact (List.suffix_append _ _).isInfix
  | case4 first rest _ _ ih =>
    rw [choiceText, String.toList_append, String.toList_append, List.append_assoc]
    · rcases List.mem_cons.1 h with rfl | h
      · exact (List.prefix_append _ _).isInfix
      · rw [← List.append_assoc]
        exact (ih h).trans (List.suffix_append _ _).isInfix
    all_goals assumption

/-- Without a message of its own, an error is said to have expected its items at what stands
there. -/
theorem toList_summary {e : ParseError} (hnone : e.failure = none) :
    (∀ item ∈ e.expected, item.toList <:+: e.summary.toList) ∧
      e.foundText.toList <:+ e.summary.toList := by
  unfold summary
  rw [hnone]
  cases hitems : e.expected.items with
  | nil =>
    refine ⟨fun item hitem => ?_, "unexpected ".toList, by simp⟩
    rw [ItemSet.mem_def, hitems] at hitem
    exact absurd hitem List.not_mem_nil
  | cons first rest =>
    refine ⟨fun item hitem => ?_,
      ("expected " ++ choiceText (first :: rest) ++ " at ").toList, by simp⟩
    rw [ItemSet.mem_def, hitems] at hitem
    have hinfix := infix_choiceText hitem
    simp only [String.toList_append]
    exact hinfix.trans ⟨"expected ".toList, " at ".toList ++ e.foundText.toList, by simp⟩

/-- **The line of an error says it.** -/
theorem saidBy_message (e : ParseError) : e.SaidBy e.message := by
  refine ⟨e.summary, by simp [message, Position.text], fun m hm => by simp [summary, hm],
    fun hnone => ?_⟩
  obtain ⟨hexpected, hfound⟩ := toList_summary hnone
  refine ⟨hexpected, fun c hc => ?_, fun hend => ?_⟩
  · rwa [foundText, hc] at hfound
  · rwa [foundText, hend] at hfound

/-- **The JSON of an error tells it**, its message by its line. -/
theorem json_eq_iff {e f : ParseError} : e.json = f.json ↔ e.position = f.position ∧
    e.expected = f.expected ∧ e.found = f.found ∧ e.message = f.message := by
  constructor
  · intro h
    have hjson := Json.text_injective h
    simp only [Json.object.injEq, List.cons.injEq, Prod.mk.injEq, Json.number.injEq,
      Json.array.injEq, Json.string.injEq, true_and, and_true] at hjson
    obtain ⟨hoffset, hline, hcolumn, hexpected, hfound, hmessage⟩ := hjson
    refine ⟨Position.ext hoffset hline hcolumn, ItemSet.ext ?_, ?_, hmessage⟩
    · exact List.map_injective_iff.2 (fun _ _ => Json.string.inj) hexpected
    · revert hfound
      cases e.found <;> cases f.found <;> simp
  · rintro ⟨hposition, hexpected, hfound, hmessage⟩
    rw [json, json, hposition, hexpected, hfound, hmessage]

end ParseError

end ParserGraph
