/-
Which texts name a kind or a rule.

A reader trims the text, takes capitals for small letters and dashes for underscores,
and then looks for the name.  Said from the side of the one who writes: a text names a
thing if it is the thing's name, with any letters as capitals and any underscores as
dashes, between blanks.  `Writes` is that grammar, and what is read is what is written.

Nothing is lost on the way because names are made of small letters and underscores.
None of these is a blank, and no two of them are written alike.
-/
import Highlighting.Proofs.Names
import Mathlib

namespace Highlighting

namespace Text

/-! ### Blanks around a text -/

/-- A text of blanks alone. -/
def Blank (s : List Char) : Prop := ∀ c ∈ s, isBlank c = true

/-- A text is what trimming leaves of it, between blanks. -/
theorem exists_blank_trim (s : List Char) :
    ∃ before after, s = before ++ trim s ++ after ∧ Blank before ∧ Blank after := by
  let inner := s.dropWhile isBlank
  have hinner : trim s ++ (inner.reverse.takeWhile isBlank).reverse = inner := by
    rw [trim, trimRight, ← List.reverse_append, List.takeWhile_append_dropWhile,
      List.reverse_reverse]
  refine ⟨s.takeWhile isBlank, (inner.reverse.takeWhile isBlank).reverse, ?_, ?_, ?_⟩
  · rw [List.append_assoc, hinner, List.takeWhile_append_dropWhile]
  · exact fun c hc => List.mem_takeWhile_imp hc
  · exact fun c hc => List.mem_takeWhile_imp (List.mem_reverse.mp hc)

theorem dropWhile_isBlank {word : List Char} (h : ∀ c ∈ word, isBlank c = false) :
    word.dropWhile isBlank = word :=
  List.dropWhile_eq_self_iff.mpr fun hpos => by simp [h _ (List.getElem_mem hpos)]

/-- Trimming takes the blanks around a word and leaves the word. -/
theorem trim_of_blank {before word after : List Char} (hbefore : Blank before)
    (hafter : Blank after) (hword : ∀ c ∈ word, isBlank c = false) :
    trim (before ++ word ++ after) = word := by
  have hback : (word ++ after).reverse.dropWhile isBlank = word.reverse := by
    rw [List.reverse_append, List.dropWhile_append_of_pos fun c hc =>
      hafter c (List.mem_reverse.mp hc)]
    exact dropWhile_isBlank fun c hc => hword c (List.mem_reverse.mp hc)
  rw [trim, trimRight, List.append_assoc, List.dropWhile_append_of_pos hbefore]
  cases word with
  | nil =>
      rw [List.nil_append, List.dropWhile_eq_nil_iff.mpr hafter]
      rfl
  | cons c rest =>
      have hfirst : ¬isBlank c = true := by simp [hword c List.mem_cons_self]
      rw [List.cons_append, List.dropWhile_cons_of_neg hfirst, ← List.cons_append, hback,
        List.reverse_reverse]

/-! ### Spellings -/

/-- `d` is a way to write the character `c` of a name: as it is, as a capital, or an underscore as a
dash. -/
def Spells (c d : Char) : Prop := d = c ∨ d = c.toUpper ∨ c = '_' ∧ d = '-'

/-- A character that names are made of: a small letter or an underscore. -/
def isPlain (c : Char) : Bool := c.isLower || c == '_'

theorem spells_foldName (d : Char) : Spells (foldName d) d := by
  unfold foldName
  split
  · rename_i hdash
    exact Or.inr (Or.inr ⟨rfl, hdash⟩)
  · cases hupper : d.isUpper with
    | false => exact Or.inl (Char.toLower_eq_of_not_isUpper (by simp [hupper])).symm
    | true =>
        have hcapital := Char.toUpper_eq_of_not_isLower (Char.not_isLower_of_isUpper hupper)
        rw [← Char.toUpper_toLower_eq_toUpper] at hcapital
        exact Or.inr (Or.inl hcapital.symm)

/-- A letter is written as a letter, and an underscore as one of two signs. -/
theorem Spells.plain {c d : Char} (h : Spells c d) (hc : isPlain c = true) :
    d.isAlpha = true ∧ d.toLower = c ∨ c = '_' ∧ (d = '_' ∨ d = '-') := by
  rw [isPlain, Bool.or_eq_true, beq_iff_eq] at hc
  rcases hc with hlower | rfl
  · have hsmall : c.toLower = c :=
      Char.toLower_eq_of_not_isUpper (Char.not_isUpper_of_isLower hlower)
    have halpha : c.isAlpha = true := by simp [Char.isAlpha, hlower]
    rcases h with rfl | rfl | ⟨rfl, -⟩
    · exact Or.inl ⟨halpha, hsmall⟩
    · exact Or.inl ⟨by rw [Char.isAlpha_toUpper_eq_isAlpha, halpha],
        by rw [Char.toLower_toUpper_eq_toLower, hsmall]⟩
    · exact absurd hlower (by decide)
  · rcases h with rfl | rfl | ⟨-, rfl⟩
    · exact Or.inr ⟨rfl, Or.inl rfl⟩
    · exact Or.inr ⟨rfl, Or.inl (by decide)⟩
    · exact Or.inr ⟨rfl, Or.inr rfl⟩

theorem foldName_of_isAlpha {d : Char} (h : d.isAlpha = true) : foldName d = d.toLower := by
  refine if_neg ?_
  rintro rfl
  exact absurd h (by decide)

theorem isBlank_of_isAlpha {d : Char} (h : d.isAlpha = true) : isBlank d = false := by
  have hrange : 65 ≤ d.toNat ∧ d.toNat ≤ 90 ∨ 97 ≤ d.toNat ∧ d.toNat ≤ 122 := by
    simpa [Char.isAlpha, Char.isUpper, Char.isLower, UInt32.le_iff_toNat_le] using h
  rw [Bool.eq_false_iff]
  intro hblank
  simp only [isBlank, Bool.or_eq_true, Bool.and_eq_true, decide_eq_true_eq, beq_iff_eq] at hblank
  omega

theorem foldName_of_spells {c d : Char} (h : Spells c d) (hc : isPlain c = true) :
    foldName d = c ∧ isBlank d = false := by
  rcases h.plain hc with ⟨halpha, hlower⟩ | ⟨rfl, rfl | rfl⟩
  · exact ⟨(foldName_of_isAlpha halpha).trans hlower, isBlank_of_isAlpha halpha⟩
  · decide
  · decide

/-- A spelling of a name has no blanks in it, and is read as the name. -/
theorem read_spelling {name word : List Char} (hname : ∀ c ∈ name, isPlain c = true)
    (h : List.Forall₂ Spells name word) :
    word.map foldName = name ∧ ∀ d ∈ word, isBlank d = false := by
  induction h with
  | nil => exact ⟨rfl, by simp⟩
  | cons hspells _ ih =>
      rw [List.forall_mem_cons] at hname
      obtain ⟨hfold, hblank⟩ := foldName_of_spells hspells hname.1
      obtain ⟨hrest, hblanks⟩ := ih hname.2
      refine ⟨?_, List.forall_mem_cons.mpr ⟨hblank, hblanks⟩⟩
      rw [List.map_cons, hfold, hrest]

/-- A text that writes a name: blanks, the name in some spelling, and blanks. -/
def Writes (name s : String) : Prop :=
  ∃ before word after, s.toList = before ++ word ++ after ∧
    Blank before ∧ List.Forall₂ Spells name.toList word ∧ Blank after

/-- A text stands for the names it writes. -/
theorem eq_canonical_iff_writes {name s : String} (hname : ∀ c ∈ name.toList, isPlain c = true) :
    name = canonical s ↔ Writes name s := by
  constructor
  · intro h
    obtain ⟨before, after, hs, hbefore, hafter⟩ := exists_blank_trim s.toList
    refine ⟨before, trim s.toList, after, hs, hbefore, ?_, hafter⟩
    rw [h, canonical, String.toList_ofList, List.forall₂_map_left_iff, List.forall₂_same]
    exact fun c _ => spells_foldName c
  · rintro ⟨before, word, after, hs, hbefore, hspells, hafter⟩
    obtain ⟨hfold, hblank⟩ := read_spelling hname hspells
    rw [canonical, hs, trim_of_blank hbefore hafter hblank, hfold, String.ofList_toList]

/-- Reading is the converse of writing: a text is read as `a` exactly if it writes the name of `a`,
no text writes two names, and a text that writes none is refused with nothing taken off it. -/
structure ReadsNames {α ε : Type} (name : α → String) (unknown : String → ε)
    (read : String → Except ε α) : Prop where
  accepts (s : String) (a : α) : read s = .ok a ↔ Writes (name a) s
  unique (s : String) (a b : α) : Writes (name a) s → Writes (name b) s → a = b
  refuses (s : String) (e : ε) : read s = .error e ↔ e = unknown s ∧ ∀ a, ¬Writes (name a) s

theorem readsNames_of_readName? {α ε : Type} {all : List α} {name : α → String}
    {unknown : String → ε} {read : String → Except ε α} (hall : ∀ a, a ∈ all)
    (hname : (all.map name).Nodup) (hplain : ∀ a, ∀ c ∈ (name a).toList, isPlain c = true)
    (hread : ∀ s, read s = (readName? all name s).elim (.error (unknown s)) .ok) :
    ReadsNames name unknown read := by
  have hwrites : ∀ s a, readName? all name s = some a ↔ Writes (name a) s := fun s a => by
    rw [readName?_eq_some_iff hall hname, eq_canonical_iff_writes (hplain a)]
  refine ⟨fun s a => ?_, fun s a b ha hb => ?_, fun s e => ?_⟩
  · rw [hread, ← hwrites]
    cases readName? all name s <;> simp
  · exact Option.some.inj (((hwrites s a).mpr ha).symm.trans ((hwrites s b).mpr hb))
  · simp only [hread, ← hwrites]
    cases readName? all name s <;> simp [eq_comm]

end Text

/-! ### Kinds and rules -/

open Text

theorem Kind.name_plain (k : Kind) : ∀ c ∈ k.name.toList, isPlain c = true := by
  rw [← List.all_eq_true]
  cases k <;> rfl

theorem Rule.name_plain (r : Rule) : ∀ c ∈ r.name.toList, isPlain c = true := by
  rw [← List.all_eq_true]
  cases r <;> rfl

/-- **What is read is what is written.**  A text names a kind exactly if it is the name of the kind
between blanks, with any letters in capitals and any underscores as dashes.  It names one kind at
most, and if it names none the error holds the text with its blanks.  So it is with rules, where the
text itself is the error. -/
theorem kinds_and_rules_read_as_written :
    ReadsNames Kind.name Kind.Unknown.mk Kind.read ∧ ReadsNames Rule.name id Rule.read := by
  constructor
  · refine readsNames_of_readName? Kind.mem_all Kind.nodup_names Kind.name_plain fun s => ?_
    rw [Kind.read, Kind.read?]
    cases readName? Kind.all Kind.name s <;> rfl
  · refine readsNames_of_readName? Rule.mem_all Rule.nodup_names Rule.name_plain fun s => ?_
    rw [Rule.read, Rule.read?]
    cases readName? Rule.all Rule.name s <;> rfl

example : Kind.read "\u00a0Static-METHOD_decl\n" = .ok .staticMethodDecl := by decide

end Highlighting
