import ParserGraph.Proofs.Text.Quoting
import ParserGraph.Text.Json

/-!
# JSON — a text tells the value it was written for

The text of a value says by its first character what kind of value it is, and
where it ends: a number at the first character that is no digit, a string at
the first quote that is not escaped, an array or an object at the bracket
after its last part. So no two values have the same text
(`Json.text_injective`). Copied or escaped, a character of a string is told
from the front (`Json.Spells.append_inj`), and the chunks a string goes by make
no difference to that.
-/

namespace ParserGraph.Json

/-! ## Strings -/

/-- The characters that are escaped with a letter, each with its letter. -/
def letters : List (Char × Char) :=
  [('"', '"'), ('\\', '\\'), ('\n', 'n'), ('\r', 'r'), ('\t', 't'), ('\x08', 'b'), ('\x0c', 'f')]

/-- A character goes into a string with a letter, as a control character or as it is. -/
inductive Spells (c : Char) : List Char → Prop
  | letter {l : Char} : (c, l) ∈ letters → Spells c ['\\', l]
  | control : c.toNat < 256 → Spells c (escapeControl c)
  | copied : c ≠ '\\' → c ≠ '"' → Spells c [c]

theorem spells_escapeChar (c : Char) : Spells c (escapeChar c) := by
  unfold escapeChar
  split
  · exact .letter (by decide)
  · exact .letter (by decide)
  · exact .letter (by decide)
  · exact .letter (by decide)
  · exact .letter (by decide)
  · exact .letter (by decide)
  · exact .letter (by decide)
  · next hquote hbackslash _ _ _ _ _ =>
    split
    · next hcontrol => exact .control (by simp at hcontrol; omega)
    · exact .copied hbackslash hquote

theorem spells_of_isPlain {c : Char} (h : isPlain c = true) : Spells c [c] := by
  simp only [isPlain, Bool.and_eq_true, bne_iff_ne] at h
  exact .copied h.2 h.1.2

/-- A plain character takes one byte. -/
theorem utf8Size_of_isPlain {c : Char} (h : isPlain c = true) : c.utf8Size = 1 := by
  have hsmall : c.toNat < 128 := by
    simp only [isPlain, Bool.and_eq_true, decide_eq_true_eq] at h
    exact h.1.1.2
  rw [Char.utf8Size_eq_one_iff, UInt32.le_iff_toNat_le]
  exact Nat.le_of_lt_succ hsmall

/-- Characters of a string can be told apart from the front, whatever follows them. -/
theorem Spells.append_inj {c d : Char} {l m rest rest' : List Char} (hc : Spells c l)
    (hd : Spells d m) (h : l ++ rest = m ++ rest') : c = d ∧ rest = rest' := by
  have hletters : ∀ p ∈ letters, ∀ q ∈ letters, p.2 = q.2 → p.1 = q.1 := by decide
  have hcontrol : ∀ p ∈ letters, p.2 ≠ 'u' := by decide
  cases hc with
  | letter hl =>
    cases hd with
    | letter hm =>
      obtain ⟨hsame, hrest⟩ := List.cons.inj (List.cons.inj h).2
      exact ⟨hletters _ hl _ hm hsame, hrest⟩
    | control _ => exact absurd (List.cons.inj (List.cons.inj h).2).1 (hcontrol _ hl)
    | copied hne _ => exact absurd (List.cons.inj h).1.symm hne
  | control hsmall =>
    cases hd with
    | letter hm => exact absurd (List.cons.inj (List.cons.inj h).2).1.symm (hcontrol _ hm)
    | control hsmall' =>
      simp only [escapeControl, List.cons_append, List.nil_append, List.cons.injEq, true_and] at h
      obtain ⟨hhigh, hlow, hrest⟩ := h
      have hdiv := digitChar_inj (by omega) (by omega) hhigh
      have hmod := digitChar_inj (by omega) (by omega) hlow
      exact ⟨Char.toNat_inj.1 (by omega), hrest⟩
    | copied hne _ => exact absurd (List.cons.inj h).1.symm hne
  | copied hne hquote =>
    cases hd with
    | letter hm => exact absurd (List.cons.inj h).1 hne
    | control _ => exact absurd (List.cons.inj h).1 hne
    | copied _ _ => exact List.cons.inj h

/-- No character of a string begins with the quote that ends it. -/
theorem Spells.ne_quote {c : Char} {l : List Char} (h : Spells c l) (rest rest' : List Char) :
    l ++ rest ≠ '"' :: rest' := by
  intro hsame
  cases h with
  | letter _ => exact absurd (List.cons.inj hsame).1 (by decide)
  | control _ => exact absurd (List.cons.inj hsame).1 (by decide)
  | copied _ hquote => exact hquote (List.cons.inj hsame).1

/-- Where a string is quoted by chunks, each character is copied or escaped. A chunk is copied only
while plain characters come. -/
theorem spelled_escapeFrom {copied : Bool} {left : Nat} {text : List Char}
    (h : copied = true → plainAhead left text = true) :
    Spelled Spells text (escapeFrom copied left text) := by
  induction text generalizing copied left with
  | nil => exact .nil
  | cons c text ih =>
    -- the character goes into a chunk that has begun
    have hchunk : ∀ (copied : Bool) (left : Nat), left ≠ 0 →
        (copied = true → plainAhead left (c :: text) = true) → Spelled Spells (c :: text)
          ((if copied then [c] else escapeChar c) ++
            escapeFrom copied (left - c.utf8Size) text) := by
      intro copied left hleft hplain
      obtain ⟨left, rfl⟩ := Nat.exists_eq_succ_of_ne_zero hleft
      cases copied with
      | false => exact .cons (spells_escapeChar c) (ih fun h => nomatch h)
      | true =>
        obtain ⟨hc, htext⟩ := Bool.and_eq_true_iff.1 (hplain rfl)
        rw [utf8Size_of_isPlain hc]
        exact .cons (spells_of_isPlain hc) (ih fun _ => htext)
    rw [escapeFrom]
    by_cases hfresh : left = 0
    · simp only [hfresh, if_true]
      exact hchunk _ chunkSize (by decide) id
    · simp only [hfresh, if_false]
      exact hchunk copied left hfresh h

theorem toList_quote (s : String) : ∃ out, Spelled Spells s.toList out ∧
    ∀ rest, (quote s).toList ++ rest = '"' :: (out ++ '"' :: rest) := by
  have hout : Spelled Spells s.toList (escapeFrom false 0 s.toList) :=
    spelled_escapeFrom fun h => nomatch h
  refine ⟨_, hout, fun rest => ?_⟩
  rw [quote, String.toList_ofList]
  simp

/-- A quoted string is told whatever follows it. -/
theorem quote_append_inj {s s' : String} {rest rest' : List Char}
    (h : (quote s).toList ++ rest = (quote s').toList ++ rest') : s = s' ∧ rest = rest' := by
  obtain ⟨out, hout, hquote⟩ := toList_quote s
  obtain ⟨out', hout', hquote'⟩ := toList_quote s'
  rw [hquote, hquote'] at h
  obtain ⟨htext, hrest⟩ := hout.append_inj Spells.append_inj Spells.ne_quote hout'
    (List.cons.inj h).2
  exact ⟨String.toList_inj.1 htext, hrest⟩

/-! ## What follows -/

variable {rest rest' : List Char}

/-- What may follow a value: no digit that would go on a number. -/
def Ends (rest : List Char) : Prop := ∀ c ∈ rest.head?, c.isDigit = false

theorem ends_cons {c : Char} (hc : c.isDigit = false) (rest : List Char) : Ends (c :: rest) := by
  intro d hd
  cases hd
  exact hc

/-- A number is told up to what ends it. -/
theorem toDigits_append_inj {m n : Nat} (hends : Ends rest) (hends' : Ends rest')
    (h : Nat.toDigits 10 m ++ rest = Nat.toDigits 10 n ++ rest') : m = n ∧ rest = rest' := by
  have hfront : ∀ (n : Nat) {rest : List Char}, Ends rest →
      (Nat.toDigits 10 n ++ rest).takeWhile Char.isDigit = Nat.toDigits 10 n := by
    intro n rest hends
    have hbehind : rest.takeWhile Char.isDigit = [] := by
      cases rest with
      | nil => rfl
      | cons c rest => exact List.takeWhile_cons_of_neg (by simp [hends c rfl])
    rw [List.takeWhile_append_of_pos fun c hc =>
      Nat.isDigit_of_mem_toDigits (by decide) (by decide) hc, hbehind, List.append_nil]
  have hdigits : Nat.toDigits 10 m = Nat.toDigits 10 n := by
    rw [← hfront m hends, h, hfront n hends']
  rw [hdigits] at h
  exact ⟨toDigits_ten_injective hdigits, List.append_cancel_left h⟩

/-- Something that is told by how it is written, whatever follows. -/
def ToldBy {α : Type} (written : α → List Char) (a : α) : Prop :=
  ∀ (a' : α) (rest rest' : List Char), Ends rest → Ends rest' →
    written a ++ rest = written a' ++ rest' → a = a' ∧ rest = rest'

section

variable {α : Type} {written : α → List Char} {close : Char} {a a' : α} {parts parts' : List α}

/-- What stands behind a part: each other part after a comma, and then the bracket. -/
def behind (written : α → List Char) (close : Char) (rest : List Char) : List α → List Char
  | [] => close :: rest
  | a :: parts => ',' :: (written a ++ behind written close rest parts)

theorem intercalate_append (a : α) (parts : List α) :
    [','].intercalate ((a :: parts).map written) ++ close :: rest =
      written a ++ behind written close rest parts := by
  induction parts generalizing a with
  | nil => simp [behind]
  | cons b parts ih =>
    rw [behind, ← ih b]
    simp [List.intercalate]

theorem ends_behind (hclose : close.isDigit = false) (parts : List α) :
    Ends (behind written close rest parts) := by
  cases parts with
  | nil => exact ends_cons hclose rest
  | cons a parts => exact ends_cons rfl _

/-- What stands behind a part tells the other parts, if each of them is told. -/
theorem behind_inj (hcomma : close ≠ ',') (hclose : close.isDigit = false)
    (htold : ∀ a ∈ parts, ToldBy written a)
    (h : behind written close rest parts = behind written close rest' parts') :
    parts = parts' ∧ rest = rest' := by
  induction parts generalizing parts' with
  | nil =>
    cases parts' with
    | nil => exact ⟨rfl, (List.cons.inj h).2⟩
    | cons a' parts' => exact absurd (List.cons.inj h).1 hcomma
  | cons a parts ih =>
    cases parts' with
    | nil => exact absurd (List.cons.inj h).1.symm hcomma
    | cons a' parts' =>
      rw [List.forall_mem_cons] at htold
      obtain ⟨rfl, hbehind⟩ := htold.1 a' _ _ (ends_behind hclose parts)
        (ends_behind hclose parts') (List.cons.inj h).2
      obtain ⟨rfl, hrest⟩ := ih htold.2 hbehind
      exact ⟨rfl, hrest⟩

/-- Parts with commas between them are told up to a bracket that begins none of them, if each part
is told. -/
theorem eq_of_intercalate (hcomma : close ≠ ',') (hclose : close.isDigit = false)
    (hopens : ∀ (a : α) (rest rest' : List Char), written a ++ rest ≠ close :: rest')
    (htold : ∀ a ∈ parts, ToldBy written a)
    (h : [','].intercalate (parts.map written) ++ close :: rest =
      [','].intercalate (parts'.map written) ++ close :: rest') :
    parts = parts' ∧ rest = rest' := by
  cases parts with
  | nil =>
    cases parts' with
    | nil => exact ⟨rfl, (List.cons.inj h).2⟩
    | cons a' parts' =>
      rw [intercalate_append] at h
      exact absurd h.symm (hopens a' _ _)
  | cons a parts =>
    cases parts' with
    | nil =>
      rw [intercalate_append] at h
      exact absurd h (hopens a _ _)
    | cons a' parts' =>
      rw [intercalate_append, intercalate_append] at h
      rw [List.forall_mem_cons] at htold
      obtain ⟨rfl, hbehind⟩ := htold.1 a' _ _ (ends_behind hclose parts)
        (ends_behind hclose parts') h
      obtain ⟨rfl, hrest⟩ := behind_inj hcomma hclose htold.2 hbehind
      exact ⟨rfl, hrest⟩

end

/-! ## Values -/

/-- The characters of a value. -/
def chars (v : Json) : List Char := v.text.toList

/-- The characters of a field. -/
def fieldChars (field : String × Json) : List Char :=
  (quote field.1).toList ++ ':' :: field.2.chars

theorem chars_null : chars null = ['n', 'u', 'l', 'l'] := rfl

theorem chars_number (n : Nat) : chars (number n) = Nat.toDigits 10 n := by
  simp [chars, text, Nat.toList_repr]

theorem chars_string (s : String) : chars (string s) = (quote s).toList := rfl

theorem chars_array_append (items : List Json) (rest : List Char) :
    chars (array items) ++ rest = '[' :: ([','].intercalate (items.map chars) ++ ']' :: rest) := by
  have hitems : itemTexts items = items.map text := by
    induction items with
    | nil => rfl
    | cons item items ih => rw [itemTexts, ih, List.map_cons]
  have hchars : (items.map text).map String.toList = items.map chars := List.map_map
  simp [chars, text, hitems, ← hchars]

theorem chars_object_append (fields : List (String × Json)) (rest : List Char) :
    chars (object fields) ++ rest =
      '\x7b' :: ([','].intercalate (fields.map fieldChars) ++ '\x7d' :: rest) := by
  have hfields : (fieldTexts fields).map String.toList = fields.map fieldChars := by
    induction fields with
    | nil => rfl
    | cons field fields ih =>
      rw [fieldTexts, List.map_cons, ih, List.map_cons]
      simp [fieldChars, chars]
  simp [chars, text, ← hfields]

/-- The kind of a value, as a number. -/
def kind : Json → Nat
  | null => 0
  | number _ => 1
  | string _ => 2
  | array _ => 3
  | object _ => 4

/-- The kind of the values whose texts begin with a character. -/
def kindOf (c : Char) : Nat :=
  if c = 'n' then 0 else if c.isDigit then 1 else if c = '"' then 2 else if c = '[' then 3
  else if c = '\x7b' then 4 else 5

/-- The text of a value begins with a character that tells its kind. -/
theorem exists_first (v : Json) : ∃ c cs, v.chars = c :: cs ∧ kindOf c = v.kind := by
  cases v with
  | null => exact ⟨'n', _, chars_null, rfl⟩
  | number n =>
    obtain ⟨c, cs, hdigits⟩ := List.exists_cons_of_ne_nil (Nat.toDigits_ne_nil (n := n) (b := 10))
    have hc : c.isDigit = true :=
      Nat.isDigit_of_mem_toDigits (by decide) (by decide) (hdigits ▸ List.mem_cons_self)
    have hn : c ≠ 'n' := by
      rintro rfl
      exact nomatch hc
    exact ⟨c, cs, (chars_number n).trans hdigits, by rw [kindOf, if_neg hn, if_pos hc]; rfl⟩
  | string s =>
    obtain ⟨out, -, hquote⟩ := toList_quote s
    exact ⟨'"', _, by simpa [chars_string] using hquote [], rfl⟩
  | array items => exact ⟨'[', _, by simpa using chars_array_append items [], rfl⟩
  | object fields => exact ⟨'\x7b', _, by simpa using chars_object_append fields [], rfl⟩

/-- Values with texts that begin alike are of one kind. -/
theorem kind_eq {v v' : Json} (h : v.chars ++ rest = v'.chars ++ rest') : v.kind = v'.kind := by
  obtain ⟨c, cs, hv, hkind⟩ := exists_first v
  obtain ⟨c', cs', hv', hkind'⟩ := exists_first v'
  rw [hv, hv'] at h
  rw [← hkind, ← hkind', (List.cons.inj h).1]

/-- No value begins with a closing bracket. -/
theorem chars_append_ne_bracket (v : Json) (rest rest' : List Char) :
    v.chars ++ rest ≠ ']' :: rest' := by
  intro h
  obtain ⟨c, cs, hv, hkind⟩ := exists_first v
  rw [hv] at h
  rw [(List.cons.inj h).1] at hkind
  cases v <;> exact nomatch hkind

theorem toldBy_null : ToldBy chars null := by
  intro v' rest rest' _ _ h
  have hkind := kind_eq h
  cases v' with
  | null => exact ⟨rfl, List.append_cancel_left h⟩
  | _ => exact nomatch hkind

theorem toldBy_number (n : Nat) : ToldBy chars (number n) := by
  intro v' rest rest' hends hends' h
  have hkind := kind_eq h
  cases v' with
  | number n' =>
    rw [chars_number, chars_number] at h
    obtain ⟨rfl, hrest⟩ := toDigits_append_inj hends hends' h
    exact ⟨rfl, hrest⟩
  | _ => exact nomatch hkind

theorem toldBy_string (s : String) : ToldBy chars (string s) := by
  intro v' rest rest' _ _ h
  have hkind := kind_eq h
  cases v' with
  | string s' =>
    rw [chars_string, chars_string] at h
    obtain ⟨rfl, hrest⟩ := quote_append_inj h
    exact ⟨rfl, hrest⟩
  | _ => exact nomatch hkind

theorem toldBy_array {items : List Json} (hitems : ∀ item ∈ items, ToldBy chars item) :
    ToldBy chars (array items) := by
  intro v' rest rest' _ _ h
  have hkind := kind_eq h
  cases v' with
  | array items' =>
    rw [chars_array_append, chars_array_append] at h
    obtain ⟨rfl, hrest⟩ := eq_of_intercalate (by decide) rfl chars_append_ne_bracket hitems
      (List.cons.inj h).2
    exact ⟨rfl, hrest⟩
  | _ => exact nomatch hkind

/-- A field is told by its name and its value. -/
theorem toldBy_field {field : String × Json} (h : ToldBy chars field.2) :
    ToldBy fieldChars field := by
  intro field' rest rest' hends hends' hsame
  rw [fieldChars, fieldChars, List.append_assoc, List.append_assoc] at hsame
  obtain ⟨hname, hbehind⟩ := quote_append_inj hsame
  obtain ⟨hvalue, hrest⟩ := h field'.2 rest rest' hends hends' (List.cons.inj hbehind).2
  exact ⟨Prod.ext hname hvalue, hrest⟩

theorem toldBy_object {fields : List (String × Json)}
    (hfields : ∀ field ∈ fields, ToldBy chars field.2) : ToldBy chars (object fields) := by
  intro v' rest rest' _ _ h
  have hkind := kind_eq h
  cases v' with
  | object fields' =>
    rw [chars_object_append, chars_object_append] at h
    have hopens : ∀ (field : String × Json) (rest rest' : List Char),
        fieldChars field ++ rest ≠ '\x7d' :: rest' := by
      intro field rest rest' hsame
      obtain ⟨out, -, hquote⟩ := toList_quote field.1
      rw [fieldChars, List.append_assoc, hquote] at hsame
      exact absurd (List.cons.inj hsame).1 (by decide)
    obtain ⟨rfl, hrest⟩ := eq_of_intercalate (by decide) rfl hopens
      (fun field hfield => toldBy_field (hfields field hfield)) (List.cons.inj h).2
    exact ⟨rfl, hrest⟩
  | _ => exact nomatch hkind

mutual

/-- **The text of a value tells the value**, whatever follows that does not go on a number. -/
theorem toldBy_chars : ∀ v : Json, ToldBy chars v
  | null => toldBy_null
  | number n => toldBy_number n
  | string s => toldBy_string s
  | array items => toldBy_array (toldBy_items items)
  | object fields => toldBy_object (toldBy_fields fields)

theorem toldBy_items : ∀ items : List Json, ∀ item ∈ items, ToldBy chars item
  | [] => fun _ hitem => absurd hitem List.not_mem_nil
  | item :: items => List.forall_mem_cons.2 ⟨toldBy_chars item, toldBy_items items⟩

theorem toldBy_fields : ∀ fields : List (String × Json), ∀ field ∈ fields, ToldBy chars field.2
  | [] => fun _ hfield => absurd hfield List.not_mem_nil
  | (_, value) :: fields => List.forall_mem_cons.2 ⟨toldBy_chars value, toldBy_fields fields⟩

end

/-- **No two values have the same text.** -/
theorem text_injective {v v' : Json} (h : v.text = v'.text) : v = v' := by
  have hnone : Ends [] := fun _ hc => nomatch hc
  have hchars : v.chars ++ [] = v'.chars ++ [] := by rw [chars, chars, h]
  exact (toldBy_chars v v' [] [] hnone hnone hchars).1

end ParserGraph.Json
