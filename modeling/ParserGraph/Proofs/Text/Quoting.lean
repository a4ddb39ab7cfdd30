import Mathlib
import ParserGraph.Text.Quoted

/-!
# Quoting — quoted texts can be told apart

A text is quoted character by character (`Spelled`). Where from the front one
can tell which character comes first and where the next one begins, the whole
text can be told, up to a mark that no character begins with
(`Spelled.append_inj`). A quoted character is a backslash with a letter, a code
point in braces or the character itself, and so it can be told
(`Quoted.Spells.append_inj`); there is no line break in a quoted text.
-/

namespace ParserGraph

/-! ## Up to a mark -/

/-- What stands before the first of a mark, and what stands behind it, are told by the whole. -/
theorem eq_of_append_mark {α : Type} {mark : α} {front front' rest rest' : List α}
    (hfront : mark ∉ front) (hfront' : mark ∉ front')
    (h : front ++ mark :: rest = front' ++ mark :: rest') : front = front' ∧ rest = rest' := by
  induction front generalizing front' with
  | nil =>
    cases front' with
    | nil => exact ⟨rfl, (List.cons.inj h).2⟩
    | cons a front' => exact absurd ((List.cons.inj h).1 ▸ List.mem_cons_self) hfront'
  | cons a front ih =>
    cases front' with
    | nil => exact absurd ((List.cons.inj h).1 ▸ List.mem_cons_self) hfront
    | cons b front' =>
      obtain ⟨rfl, hbehind⟩ := List.cons.inj h
      obtain ⟨rfl, hrest⟩ := ih (fun hmem => hfront (List.mem_cons_of_mem _ hmem))
        (fun hmem => hfront' (List.mem_cons_of_mem _ hmem)) hbehind
      exact ⟨rfl, hrest⟩

/-- Lists that each end with a mark and have no other are told by all of them together. -/
theorem eq_of_flatMap_mark {α : Type} {mark : α} {lists lists' : List (List α)}
    (hlists : ∀ l ∈ lists, mark ∉ l) (hlists' : ∀ l ∈ lists', mark ∉ l)
    (h : lists.flatMap (· ++ [mark]) = lists'.flatMap (· ++ [mark])) : lists = lists' := by
  induction lists generalizing lists' with
  | nil =>
    cases lists' with
    | nil => rfl
    | cons l lists' => simp at h
  | cons l lists ih =>
    cases lists' with
    | nil => simp at h
    | cons l' lists' =>
      rw [List.forall_mem_cons] at hlists hlists'
      simp only [List.flatMap_cons, List.append_assoc, List.singleton_append] at h
      obtain ⟨rfl, hrest⟩ := eq_of_append_mark hlists.1 hlists'.1 h
      rw [ih hlists.2 hlists'.2 hrest]

/-! ## Decimal digits -/

theorem notMem_toDigits_ten {c : Char} (hc : c.isDigit = false) (n : Nat) :
    c ∉ Nat.toDigits 10 n := by
  intro hmem
  rw [Nat.isDigit_of_mem_toDigits (by decide) (by decide) hmem] at hc
  exact nomatch hc

/-- A number is told by its decimal digits. -/
theorem toDigits_ten_injective {m n : Nat} (h : Nat.toDigits 10 m = Nat.toDigits 10 n) :
    m = n := by
  rw [← @Nat.ofDigitChars_ten_toDigits m, h, Nat.ofDigitChars_ten_toDigits]

/-! ## Hexadecimal digits -/

theorem digitChar_inj {m n : Nat} (hm : m < 16) (hn : n < 16)
    (h : Nat.digitChar m = Nat.digitChar n) : m = n := by
  have hall : ∀ m n : Fin 16, Nat.digitChar m = Nat.digitChar n → m = n := by decide
  exact congrArg Fin.val (hall ⟨m, hm⟩ ⟨n, hn⟩ h)

/-- A number is told by its hexadecimal digits. -/
theorem toDigits_sixteen_injective {m n : Nat} (h : Nat.toDigits 16 m = Nat.toDigits 16 n) :
    m = n := by
  induction m using Nat.strongRecOn generalizing n with
  | ind m ih =>
    rw [Nat.toDigits_eq_if (by decide), Nat.toDigits_eq_if (n := n) (by decide)] at h
    split at h <;> split at h
    · next hm hn => exact digitChar_inj hm hn (List.cons.inj h).1
    · exact absurd (List.append_eq_singleton_iff.1 h.symm) (by simp [Nat.toDigits_ne_nil])
    · exact absurd (List.append_eq_singleton_iff.1 h) (by simp [Nat.toDigits_ne_nil])
    · next hm hn =>
      obtain ⟨hfront, hlast⟩ := List.append_inj' h rfl
      have hdiv : m / 16 = n / 16 := ih (m / 16) (by omega) hfront
      have hmod : m % 16 = n % 16 :=
        digitChar_inj (Nat.mod_lt m (by decide)) (Nat.mod_lt n (by decide)) (List.cons.inj hlast).1
      omega

/-- The hexadecimal digits of a number are digits. -/
theorem exists_digit_of_mem_toDigits {c : Char} {n : Nat} (h : c ∈ Nat.toDigits 16 n) :
    ∃ d < 16, c = Nat.digitChar d := by
  induction n using Nat.strongRecOn with
  | ind n ih =>
    rw [Nat.toDigits_eq_if (by decide)] at h
    split at h
    · next hn => exact ⟨n, hn, List.mem_singleton.1 h⟩
    · next hn =>
      rcases List.mem_append.1 h with hfront | hlast
      · exact ih (n / 16) (by omega) hfront
      · exact ⟨n % 16, Nat.mod_lt n (by decide), List.mem_singleton.1 hlast⟩

/-- No hexadecimal digit is a line break or the end of a code point. -/
theorem notMem_toDigits_sixteen {n : Nat} :
    '\n' ∉ Nat.toDigits 16 n ∧ '\x7d' ∉ Nat.toDigits 16 n := by
  have hall : ∀ d : Fin 16, Nat.digitChar d ≠ '\n' ∧ Nat.digitChar d ≠ '\x7d' := by decide
  refine ⟨fun h => ?_, fun h => ?_⟩
  · obtain ⟨d, hd, hc⟩ := exists_digit_of_mem_toDigits h
    exact (hall ⟨d, hd⟩).1 hc.symm
  · obtain ⟨d, hd, hc⟩ := exists_digit_of_mem_toDigits h
    exact (hall ⟨d, hd⟩).2 hc.symm

/-! ## Texts written character by character -/

/-- A text is written by writing each of its characters in one of the ways it has. -/
inductive Spelled (spells : Char → List Char → Prop) : List Char → List Char → Prop
  | nil : Spelled spells [] []
  | cons {c : Char} {l text out : List Char} :
      spells c l → Spelled spells text out → Spelled spells (c :: text) (l ++ out)

namespace Spelled

variable {spells : Char → List Char → Prop} {text text' out out' rest rest' : List Char}

/-- **A text is told up to a mark**, if its characters can be told from the front and none begins
with the mark. -/
theorem append_inj {mark : Char}
    (htold : ∀ {c d : Char} {l m rest rest' : List Char}, spells c l → spells d m →
      l ++ rest = m ++ rest' → c = d ∧ rest = rest')
    (hmark : ∀ {c : Char} {l : List Char}, spells c l → ∀ rest rest', l ++ rest ≠ mark :: rest')
    (h : Spelled spells text out) (h' : Spelled spells text' out')
    (hsame : out ++ mark :: rest = out' ++ mark :: rest') : text = text' ∧ rest = rest' := by
  induction h generalizing text' out' with
  | nil =>
    cases h' with
    | nil => exact ⟨rfl, (List.cons.inj hsame).2⟩
    | cons hd _ => exact absurd ((List.append_assoc ..).symm.trans hsame.symm) (hmark hd _ _)
  | cons hc _ ih =>
    cases h' with
    | nil => exact absurd ((List.append_assoc ..).symm.trans hsame) (hmark hc _ _)
    | cons hd hout =>
      rw [List.append_assoc, List.append_assoc] at hsame
      obtain ⟨rfl, hbehind⟩ := htold hc hd hsame
      obtain ⟨rfl, hrest⟩ := ih hout hbehind
      exact ⟨rfl, hrest⟩

/-- What is in no character as it is written is not in a text. -/
theorem notMem {x : Char} (hnone : ∀ {c : Char} {l : List Char}, spells c l → x ∉ l)
    (h : Spelled spells text out) : x ∉ out := by
  induction h with
  | nil => exact List.not_mem_nil
  | cons hc _ ih => exact fun hmem => (List.mem_append.1 hmem).elim (hnone hc) ih

end Spelled

/-! ## Quoting -/

namespace Quoted

/-- The characters that are written as a backslash and a letter, each with its letter. -/
def letters : List (Char × Char) :=
  [('\x00', '0'), ('\t', 't'), ('\r', 'r'), ('\n', 'n'), ('\\', '\\'), ('"', '"'), ('\'', '\'')]

/-- A character is written as a backslash and its letter, as its code point, or as it is if it has
no letter. -/
inductive Spells (c : Char) : List Char → Prop
  | letter {l : Char} : (c, l) ∈ letters → Spells c ['\\', l]
  | codePoint : Spells c (codePoint c)
  | plain : c ∉ letters.map Prod.fst → Spells c [c]

theorem spells_escapeChar (leading : Bool) (c : Char) : Spells c (escapeChar leading c) := by
  unfold escapeChar
  split
  · exact .letter (by decide)
  · exact .letter (by decide)
  · exact .letter (by decide)
  · exact .letter (by decide)
  · exact .letter (by decide)
  · exact .letter (by decide)
  · exact .letter (by decide)
  · next h₁ h₂ h₃ h₄ h₅ h₆ h₇ =>
    split
    · exact .codePoint
    · split
      · exact .codePoint
      · exact .plain (by simpa [letters] using ⟨h₁, h₂, h₃, h₄, h₅, h₆, h₇⟩)

/-- A text is quoted character by character. -/
theorem spelled_escape (text : List Char) : Spelled Spells text (escape text) := by
  have hothers : ∀ text : List Char, Spelled Spells text (text.flatMap (escapeChar false)) := by
    intro text
    induction text with
    | nil => exact .nil
    | cons c text ih => exact .cons (spells_escapeChar false c) ih
  cases text with
  | nil => exact .nil
  | cons c text => exact .cons (spells_escapeChar true c) (hothers text)

/-- Quoted characters can be told apart from the front, whatever follows them. -/
theorem Spells.append_inj {c d : Char} {l m rest rest' : List Char} (hc : Spells c l)
    (hd : Spells d m) (h : l ++ rest = m ++ rest') : c = d ∧ rest = rest' := by
  have hletters : ∀ p ∈ letters, ∀ q ∈ letters, p.2 = q.2 → p.1 = q.1 := by decide
  have hcode : ∀ p ∈ letters, p.2 ≠ 'u' := by decide
  have hplain : ∀ {c}, c ∉ letters.map Prod.fst → c ≠ '\\' := by
    rintro _ hc rfl
    exact hc (by decide)
  cases hc with
  | letter hl =>
    cases hd with
    | letter hm =>
      obtain ⟨hsame, hrest⟩ := List.cons.inj (List.cons.inj h).2
      exact ⟨hletters _ hl _ hm hsame, hrest⟩
    | codePoint => exact absurd (List.cons.inj (List.cons.inj h).2).1 (hcode _ hl)
    | plain hd => exact absurd (List.cons.inj h).1.symm (hplain hd)
  | codePoint =>
    cases hd with
    | letter hm => exact absurd (List.cons.inj (List.cons.inj h).2).1.symm (hcode _ hm)
    | codePoint =>
      have hdigits : Nat.toDigits 16 c.toNat ++ '\x7d' :: rest =
          Nat.toDigits 16 d.toNat ++ '\x7d' :: rest' := by
        simpa [Quoted.codePoint] using h
      obtain ⟨hnumber, hrest⟩ :=
        eq_of_append_mark notMem_toDigits_sixteen.2 notMem_toDigits_sixteen.2 hdigits
      exact ⟨Char.toNat_inj.1 (toDigits_sixteen_injective hnumber), hrest⟩
    | plain hd => exact absurd (List.cons.inj h).1.symm (hplain hd)
  | plain hc =>
    cases hd with
    | letter _ => exact absurd (List.cons.inj h).1 (hplain hc)
    | codePoint => exact absurd (List.cons.inj h).1 (hplain hc)
    | plain _ => exact List.cons.inj h

/-- No quoted character begins with a bare quote. -/
theorem Spells.ne_quote {c : Char} {l : List Char} (h : Spells c l) (rest rest' : List Char) :
    l ++ rest ≠ '\'' :: rest' := by
  intro hsame
  cases h with
  | letter _ => exact absurd (List.cons.inj hsame).1 (by decide)
  | codePoint => exact absurd (List.cons.inj hsame).1 (by decide)
  | plain hc => exact hc ((List.cons.inj hsame).1 ▸ (by decide))

theorem Spells.newline_notMem {c : Char} {l : List Char} (h : Spells c l) : '\n' ∉ l := by
  cases h with
  | letter hl =>
    have hall : ∀ p ∈ letters, p.2 ≠ '\n' := by decide
    simpa using (hall _ hl).symm
  | codePoint => simpa [Quoted.codePoint] using notMem_toDigits_sixteen.1
  | plain hc =>
    rintro hmem
    exact hc (List.mem_singleton.1 hmem ▸ (by decide))

/-- **Texts that are quoted alike are the same text**, whatever follows the quote behind them. -/
theorem escape_append_inj {text text' rest rest' : List Char}
    (h : escape text ++ '\'' :: rest = escape text' ++ '\'' :: rest') :
    text = text' ∧ rest = rest' :=
  (spelled_escape text).append_inj Spells.append_inj Spells.ne_quote (spelled_escape text') h

/-- Quoting leaves no line break in a text. -/
theorem newline_notMem_escape (text : List Char) : '\n' ∉ escape text :=
  (spelled_escape text).notMem Spells.newline_notMem

end Quoted

end ParserGraph
