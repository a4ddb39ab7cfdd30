import ParserGraph.Proofs.Run.Settled
import ParserGraph.Proofs.Text.Quoting

/-!
# Order — positions of one text, however they are compared

A position tells the same place twice, once in bytes and once by line and
column. The offset grows by one to four with every character, the column
goes back to one after a newline, and still every character moves a position
up in either (`Position.Rising`). Of two beginnings of a text one is a
beginning of the other, so whatever comparison reading moves up, it says
which of them is shorter (`Position.Rising.compare_after`).

A span may be taken by its bytes (`Cursor.consume?`), provided that they end
between two characters. The bytes may be counted out in any number of parts.
-/

namespace ParserGraph

namespace Position

/-! ## Comparisons that reading moves up -/

/-- A comparison puts every position before the one after the next character. -/
def Rising (cmp : Position → Position → Ordering) : Prop :=
  ∀ (p : Position) (c : Char), cmp p (p.advance c) = .lt

section

variable {cmp : Position → Position → Ordering} [Std.TransCmp cmp] {text front front' : List Char}

/-- A text with any character moves a position up. -/
theorem Rising.after_cons (h : Rising cmp) (p : Position) (c : Char) (text : List Char) :
    cmp p (p.after (c :: text)) = .lt := by
  induction text generalizing p c with
  | nil => exact h p c
  | cons d text ih => exact Std.TransCmp.lt_trans (h p c) (ih (p.advance c) d)

/-- A beginning of a text is put before the text, unless it is all of it. -/
theorem Rising.compare_beginning (h : Rising cmp) (p : Position) (hfront : front <+: front') :
    cmp (p.after front) (p.after front') = compare front.length front'.length := by
  obtain ⟨rest, rfl⟩ := hfront
  rw [after_append, List.length_append]
  cases rest with
  | nil =>
    have hself : cmp (p.after front) (p.after front) = .eq := Std.ReflCmp.compare_self
    rw [after_nil, List.length_nil, Nat.add_zero, hself, Std.ReflOrd.compare_self]
  | cons c rest =>
    have hlength : front.length < front.length + (c :: rest).length := by
      rw [List.length_cons]
      omega
    rw [h.after_cons, Nat.compare_eq_lt.2 hlength]

/-- **A comparison that reading moves up says which of two beginnings of a text is shorter.** -/
theorem Rising.compare_after (h : Rising cmp) (p : Position) (hfront : front <+: text)
    (hfront' : front' <+: text) :
    cmp (p.after front) (p.after front') = compare front.length front'.length := by
  rcases List.prefix_or_prefix_of_prefix hfront hfront' with hle | hle
  · exact h.compare_beginning p hle
  · calc cmp (p.after front) (p.after front')
        = (cmp (p.after front') (p.after front)).swap := Std.OrientedCmp.eq_swap
      _ = (compare front'.length front.length).swap := by rw [h.compare_beginning p hle]
      _ = compare front.length front'.length := Std.OrientedCmp.eq_swap.symm

end

/-- Positions are compared by one field after another. -/
instance : Std.TransOrd Position :=
  inferInstanceAs <| Std.TransCmp <|
    compareLex (compareOn offset) (compareLex (compareOn line) (compareOn column))

theorem rising_offset : Rising (compareOn offset) := by
  intro p c
  have hc := c.utf8Size_pos
  have hlt : p.offset < (p.advance c).offset := by
    rw [advance_offset]
    omega
  exact Nat.compare_eq_lt.2 hlt

/-- A newline moves the line up, and any other character the column on the same line. -/
theorem rising_line_column : Rising (compareLex (compareOn line) (compareOn column)) := by
  intro p c
  by_cases hc : c = '\n'
  · have hline : (p.advance c).line = p.line + 1 := by rw [advance, if_pos hc]
    rw [compareLex, compareOn, hline, Nat.compare_eq_lt.2 (Nat.lt_succ_self _)]
    rfl
  · have hline : (p.advance c).line = p.line := by rw [advance, if_neg hc]
    have hcolumn : (p.advance c).column = p.column + 1 := by rw [advance, if_neg hc]
    rw [compareLex, compareOn, compareOn, hline, hcolumn, Std.ReflOrd.compare_self,
      Nat.compare_eq_lt.2 (Nat.lt_succ_self _)]
    rfl

/-- The offset is compared first, and it differs already. -/
theorem rising_compare : Rising compare := by
  intro p c
  have hoffset : compare p.offset (p.advance c).offset = .lt := rising_offset p c
  change Position.compare p (p.advance c) = .lt
  rw [Position.compare, hoffset]
  rfl

/-! ## What a reader is told -/

theorem toList_text (p : Position) :
    p.text.toList = Nat.toDigits 10 p.line ++ ':' :: Nat.toDigits 10 p.column := by
  simp [text, Nat.toList_repr]

/-- The text of a position tells its line and its column. -/
theorem text_inj {p q : Position} : p.text = q.text ↔ p.line = q.line ∧ p.column = q.column := by
  refine ⟨fun h => ?_, fun ⟨hline, hcolumn⟩ => by rw [text, text, hline, hcolumn]⟩
  have hcolon : ∀ n, ':' ∉ Nat.toDigits 10 n := notMem_toDigits_ten rfl
  rw [← String.toList_inj, toList_text, toList_text] at h
  obtain ⟨hline, hcolumn⟩ := eq_of_append_mark (hcolon _) (hcolon _) h
  exact ⟨toDigits_ten_injective hline, toDigits_ten_injective hcolumn⟩

/-- Two beginnings of a text after which a reader is told the same are the same beginning. -/
theorem eq_of_text_after {text front front' : List Char} (p : Position) (hfront : front <+: text)
    (hfront' : front' <+: text) (htext : (p.after front).text = (p.after front').text) :
    front = front' := by
  obtain ⟨hline, hcolumn⟩ := text_inj.1 htext
  have heq : compareLex (compareOn line) (compareOn column) (p.after front) (p.after front') =
      .eq := by
    rw [compareLex, compareOn, compareOn, hline, hcolumn, Std.ReflOrd.compare_self,
      Std.ReflOrd.compare_self]
    rfl
  have hlength : front.length = front'.length :=
    Nat.compare_eq_eq.1 ((rising_line_column.compare_after p hfront hfront').symm.trans heq)
  exact (List.prefix_of_prefix_length_le hfront hfront' hlength.le).eq_of_length hlength

end Position

/-! ## Spans in bytes -/

/-- The beginning of a text that takes `n` bytes, none if the text is shorter or a character is
cut. -/
def takeBytes? : List Char → Nat → Option (List Char)
  | _, 0 => some []
  | [], _ + 1 => none
  | c :: text, n + 1 =>
    if c.utf8Size ≤ n + 1 then (takeBytes? text (n + 1 - c.utf8Size)).map (c :: ·) else none

theorem takeBytes?_append (front rest : List Char) :
    takeBytes? (front ++ rest) (bytes front) = some front := by
  induction front with
  | nil => cases rest <;> rfl
  | cons c front ih =>
    have hc := c.utf8Size_pos
    obtain ⟨n, hn⟩ : ∃ n, bytes (c :: front) = n + 1 :=
      Nat.exists_eq_succ_of_ne_zero (by rw [bytes_cons]; omega)
    have hrest : n + 1 - c.utf8Size = bytes front := by
      rw [bytes_cons] at hn
      omega
    rw [hn, List.cons_append, takeBytes?, if_pos (by rw [bytes_cons] at hn; omega), hrest, ih]
    rfl

theorem takeBytes?_eq_some_iff {text front : List Char} {n : Nat} :
    takeBytes? text n = some front ↔ front <+: text ∧ bytes front = n := by
  constructor
  · intro h
    fun_induction takeBytes? text n generalizing front with
    | case1 text =>
      cases h
      exact ⟨List.nil_prefix, bytes_nil⟩
    | case2 => exact nomatch h
    | case3 c text n hle ih =>
      obtain ⟨front, hfront, rfl⟩ := Option.map_eq_some_iff.1 h
      obtain ⟨hbegins, hbytes⟩ := ih hfront
      refine ⟨List.cons_prefix_cons.2 ⟨rfl, hbegins⟩, ?_⟩
      rw [bytes_cons, hbytes]
      omega
    | case4 => exact nomatch h
  · rintro ⟨⟨rest, rfl⟩, rfl⟩
    exact takeBytes?_append front rest

namespace Cursor

variable {c d : Cursor}

/-- The cursor after the next `n` bytes, none if they do not end between two characters of the
input. -/
def consume? (c : Cursor) (n : Nat) : Option Cursor :=
  (takeBytes? c.ahead n).map fun taken => c.advance taken.length

/-- Consuming bytes is reading the text they hold. -/
theorem consume?_eq_some_iff {n : Nat} :
    c.consume? n = some d ↔ ∃ taken, c.Reads taken d ∧ bytes taken = n := by
  rw [consume?, Option.map_eq_some_iff]
  constructor
  · rintro ⟨taken, htaken, rfl⟩
    obtain ⟨⟨rest, hrest⟩, hbytes⟩ := takeBytes?_eq_some_iff.1 htaken
    exact ⟨taken, .of_ahead hrest.symm, hbytes⟩
  · rintro ⟨taken, hreads, hbytes⟩
    exact ⟨taken, takeBytes?_eq_some_iff.2 ⟨⟨d.ahead, hreads.ahead.symm⟩, hbytes⟩, hreads.2.symm⟩

/-- Bytes consumed in parts hold one text, the texts of the parts one after another. -/
theorem reads_of_foldlM_consume? {lengths : List Nat} (h : lengths.foldlM consume? c = some d) :
    ∃ taken, c.Reads taken d ∧ bytes taken = lengths.sum := by
  induction lengths generalizing c with
  | nil =>
    cases h
    exact ⟨[], .nil, rfl⟩
  | cons n lengths ih =>
    rw [List.foldlM_cons] at h
    obtain ⟨mid, hmid, hrest⟩ := Option.bind_eq_some_iff.1 h
    obtain ⟨front, hfront, hn⟩ := consume?_eq_some_iff.1 hmid
    obtain ⟨back, hback, hsum⟩ := ih hrest
    exact ⟨front ++ back, hfront.trans hback, by rw [bytes_append, hn, hsum, List.sum_cons]⟩

/-- A text can be consumed in any parts it is made of. -/
theorem Reads.foldlM_consume? {pieces : List (List Char)} (h : c.Reads pieces.flatten d) :
    (pieces.map bytes).foldlM consume? c = some d := by
  induction pieces generalizing c with
  | nil => rw [h.eq_of_nil]; rfl
  | cons piece pieces ih =>
    obtain ⟨mid, hpiece, hrest⟩ := Reads.append_iff.1 (List.flatten_cons ▸ h)
    rw [List.map_cons, List.foldlM_cons, consume?_eq_some_iff.2 ⟨piece, hpiece, rfl⟩]
    exact ih hrest

end Cursor

namespace Position

/-- **Positions are ordered as they are read.** At two beginnings of a text the offsets, the lines
and columns, and the positions as a whole compare alike, as the lengths of the beginnings do, and
`line:column` is never the same text at distinct offsets. Bytes that can be consumed in parts can be
consumed at once, to the same cursor; and a span of what is ahead, made of whatever pieces, can be
consumed either way, which moves the cursor and its position over it. -/
theorem orders_agree :
    (∀ text front front' : List Char, front <+: text → front' <+: text →
      let p := start.after front
      let q := start.after front'
      compareOn offset p q = compare p q ∧
      compareLex (compareOn line) (compareOn column) p q = compare p q ∧
      compare p q = compare front.length front'.length ∧
      (p.offset ≠ q.offset → p.text ≠ q.text)) ∧
    (∀ (c d : Cursor) (lengths : List Nat),
      lengths.foldlM Cursor.consume? c = some d → c.consume? lengths.sum = some d) ∧
    ∀ (c : Cursor) (pieces : List (List Char)), pieces.flatten <+: c.ahead →
      let d := c.advance pieces.flatten.length
      (pieces.map bytes).foldlM Cursor.consume? c = some d ∧
      c.consume? (bytes pieces.flatten) = some d ∧
      d.position = c.position.after pieces.flatten := by
  refine ⟨fun text front front' hfront hfront' => ?_, fun c d lengths h => ?_,
    fun c pieces ⟨rest, hrest⟩ => ?_⟩
  · intro p q
    have hoffset := rising_offset.compare_after start hfront hfront'
    have hshown := rising_line_column.compare_after start hfront hfront'
    have hwhole := rising_compare.compare_after start hfront hfront'
    refine ⟨hoffset.trans hwhole.symm, hshown.trans hwhole.symm, hwhole, fun hne htext => hne ?_⟩
    rw [show p = q from congrArg start.after (eq_of_text_after start hfront hfront' htext)]
  · exact Cursor.consume?_eq_some_iff.2 (Cursor.reads_of_foldlM_consume? h)
  · have hreads : c.Reads pieces.flatten (c.advance pieces.flatten.length) :=
      .of_ahead hrest.symm
    exact ⟨hreads.foldlM_consume?, Cursor.consume?_eq_some_iff.2 ⟨_, hreads, rfl⟩, hreads.position⟩

/-- The ends of two lines, the first of which has a character of two bytes, share their column and
nothing else. The text is consumed in four parts, one of them empty and one across the newline. -/
theorem orders_agree_lines :
    let front := ['é', 'a']
    let text := ['é', 'a', '\n', 'b', 'c']
    let p := start.after front
    let q := start.after text
    let c := Cursor.start "éa\nbc"
    front <+: text ∧ p = ⟨3, 1, 3⟩ ∧ q = ⟨6, 2, 3⟩ ∧ compareOn offset p q = .lt ∧
      compareLex (compareOn line) (compareOn column) p q = .lt ∧ compare p q = .lt ∧
      p.text ≠ q.text ∧ [['é'], [], ['a', '\n', 'b'], ['c']].flatten <+: c.ahead ∧
      [2, 0, 3, 1].foldlM Cursor.consume? c = c.consume? 6 ∧
      (c.consume? 6).map Cursor.position = some q := by
  intro front text p q c
  have hfront : front <+: text := ⟨['\n', 'b', 'c'], rfl⟩
  have hpieces : [['é'], [], ['a', '\n', 'b'], ['c']].flatten <+: c.ahead := ⟨[], rfl⟩
  obtain ⟨hoffset, hshown, hwhole, htext⟩ :=
    orders_agree.1 text front text hfront List.prefix_rfl
  obtain ⟨hparts, -, hposition⟩ := orders_agree.2.2 c _ hpieces
  have hlt : compare p q = .lt := hwhole
  have honce := orders_agree.2.1 c _ [2, 0, 3, 1] hparts
  refine ⟨hfront, rfl, rfl, hoffset.trans hlt, hshown.trans hlt, hlt, htext (by decide), hpieces,
    hparts.trans honce.symm, ?_⟩
  exact (congrArg (Option.map Cursor.position) honce).trans (congrArg some hposition)

end Position

end ParserGraph
