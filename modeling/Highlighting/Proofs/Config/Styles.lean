/-
The style table that a configuration asks for.

Names are looked at in the order of their bytes.  The first that is no kind's, or
whose colour cannot be read, is the one reported; a colour that is switched off is not
read.  If there is none, the style of a kind depends on one entry only.  Several
spellings may name the same kind, and the last of them, which is the greatest, decides
alone: every entry writes the whole style, and starts from the default one, not from
what an earlier entry wrote.

An entry is refused or not by itself, whatever is in the table, so the induction over
the entries carries two facts: none so far was refused, and each style is the one that
the greatest name so far asks for.
-/
import Highlighting.Config
import Highlighting.Proofs.Config.ByteOrder
import Highlighting.Proofs.Names
import Mathlib

namespace Highlighting

open StyleTable (defaultStyle fixedModifiers)

/-! ### The style of one entry -/

/-- A modifier is on if and only if it is fixed, is asked for, or is there by default and nothing is
said of it. -/
def Switched (on fixed byDefault : Bool) (toggle : Option Bool) : Prop :=
  on = true ↔ fixed = true ∨ toggle = some true ∨ toggle = none ∧ byDefault = true

theorem switched_iff {on fixed byDefault : Bool} {toggle : Option Bool} :
    Switched on fixed byDefault toggle ↔ on = (toggle.getD byDefault || fixed) := by
  unfold Switched
  rcases toggle with _ | _ | _ <;> revert on fixed byDefault <;> decide

namespace Preferences

/-- What style some preferences give a kind. -/
structure Gives (p : Preferences) (k : Kind) (s : Style) : Prop where
  /-- Switched off, there is no colour and no modifier that is not fixed. -/
  off : p.enabled = some false → s.fg = none ∧ s.modifiers = fixedModifiers k
  color : p.enabled ≠ some false →
    (∀ text, p.fg = some text → Color.read text = .ok s.fg) ∧
      (p.fg = none → s.fg = (defaultStyle k).fg)
  modifiers : p.enabled ≠ some false →
    Switched s.modifiers.bold (fixedModifiers k).bold (defaultStyle k).modifiers.bold p.bold ∧
    Switched s.modifiers.italic (fixedModifiers k).italic (defaultStyle k).modifiers.italic
      p.italic ∧
    Switched s.modifiers.underlined (fixedModifiers k).underlined
      (defaultStyle k).modifiers.underlined p.underline ∧
    Switched s.modifiers.crossedOut (fixedModifiers k).crossedOut
      (defaultStyle k).modifiers.crossedOut p.strikethrough

/-- The colour some preferences ask for. -/
def colorOf (p : Preferences) (k : Kind) : Except Color.Invalid (Option Color) :=
  match p.fg with
  | none => .ok (defaultStyle k).fg
  | some text => Color.read text

theorem apply_of_off {p : Preferences} (h : p.enabled = some false) (k : Kind) :
    p.apply k = .ok { fg := none, modifiers := fixedModifiers k } := by
  rw [apply, if_pos h]
  rfl

theorem apply_of_on {p : Preferences} (h : p.enabled ≠ some false) (k : Kind) :
    p.apply k = (p.colorOf k).map fun c =>
      { fg := c, modifiers := p.modifiers (defaultStyle k).modifiers (fixedModifiers k) } := by
  rw [apply, if_neg h, colorOf]
  cases p.fg with
  | none => rfl
  | some text => simp only [bind, Except.bind, Except.map, pure, Except.pure]

theorem modifiers_eq_iff {p : Preferences} {m base fixed : Modifiers} :
    m = p.modifiers base fixed ↔
      Switched m.bold fixed.bold base.bold p.bold ∧
      Switched m.italic fixed.italic base.italic p.italic ∧
      Switched m.underlined fixed.underlined base.underlined p.underline ∧
      Switched m.crossedOut fixed.crossedOut base.crossedOut p.strikethrough := by
  simp only [switched_iff]
  obtain ⟨b, i, u, c⟩ := m
  simp [Preferences.modifiers, Modifiers.union]

theorem apply_eq_ok_iff {p : Preferences} {k : Kind} {s : Style} :
    p.apply k = .ok s ↔ p.Gives k s := by
  by_cases hoff : p.enabled = some false
  · rw [apply_of_off hoff]
    constructor
    · intro h
      cases h
      exact ⟨fun _ => ⟨rfl, rfl⟩, fun hon => absurd hoff hon, fun hon => absurd hoff hon⟩
    · intro h
      obtain ⟨fg, m⟩ := s
      obtain ⟨hfg, hm⟩ := h.off hoff
      cases hfg
      cases hm
      rfl
  · rw [apply_of_on hoff]
    have hcolor : p.colorOf k = .ok s.fg ↔
        (∀ text, p.fg = some text → Color.read text = .ok s.fg) ∧
          (p.fg = none → s.fg = (defaultStyle k).fg) := by
      rw [colorOf]
      cases p.fg with
      | none => simp [eq_comm]
      | some text => simp
    constructor
    · intro h
      cases hread : p.colorOf k with
      | error e => rw [hread] at h; cases h
      | ok c =>
          rw [hread] at h
          cases h
          exact ⟨fun h => absurd h hoff, fun _ => hcolor.mp hread,
            fun _ => modifiers_eq_iff.mp rfl⟩
    · intro h
      obtain ⟨fg, m⟩ := s
      have hm := modifiers_eq_iff.mpr (h.modifiers hoff)
      rw [hcolor.mpr (h.color hoff)]
      cases hm
      rfl

theorem apply_eq_error_iff {p : Preferences} {k : Kind} {cause : Color.Invalid} :
    p.apply k = .error cause ↔
      p.enabled ≠ some false ∧ ∃ text, p.fg = some text ∧ Color.read text = .error cause := by
  by_cases hoff : p.enabled = some false
  · rw [apply_of_off hoff]
    simp [hoff]
  · rw [apply_of_on hoff, colorOf]
    cases p.fg with
    | none => simp [Except.map]
    | some text => cases hread : Color.read text <;> simp [hoff, hread, Except.map]

/-- Preferences give a kind one style. -/
theorem Gives.unique {p : Preferences} {k : Kind} {s s' : Style} (h : p.Gives k s)
    (h' : p.Gives k s') : s = s' := by
  have heq := (apply_eq_ok_iff.mpr h).symm.trans (apply_eq_ok_iff.mpr h')
  exact Except.ok.inj heq

end Preferences

/-! ### Fixed modifiers -/

/-- A set of modifiers has those of another on. -/
def Modifiers.Includes (m n : Modifiers) : Prop := m.union n = m

theorem StyleTable.defaultStyle_includes (k : Kind) :
    (defaultStyle k).modifiers.Includes (fixedModifiers k) := by
  cases k <;> rfl

theorem Switched.includes {on fixed byDefault : Bool} {toggle : Option Bool}
    (h : Switched on fixed byDefault toggle) : (on || fixed) = on := by
  rw [switched_iff.mp h]
  cases fixed <;> simp

/-- No preferences take away the fixed modifiers of a kind. -/
theorem Preferences.Gives.includes {p : Preferences} {k : Kind} {s : Style} (h : p.Gives k s) :
    s.modifiers.Includes (fixedModifiers k) := by
  by_cases hoff : p.enabled = some false
  · rw [(h.off hoff).2]
    simp [Modifiers.Includes, Modifiers.union]
  · obtain ⟨hb, hi, hu, hc⟩ := h.modifiers hoff
    unfold Modifiers.Includes Modifiers.union
    rw [hb.includes, hi.includes, hu.includes, hc.includes]

namespace Config

/-! ### Entries that are refused -/

/-- The names of some entries are in the order of their bytes, each there once. -/
def Ordered (entries : List (String × Preferences)) : Prop :=
  entries.Pairwise fun a b => Text.bytes a.1 < Text.bytes b.1

theorem ordered_styles (c : Config) : Ordered c.styles :=
  c.ordered.imp fun hab => (Text.lt_iff_bytes_lt _ _).mp hab

/-- What is wrong with an entry: its name is no kind's, or its colour is needed and cannot be
read. -/
def Refused (entry : String × Preferences) (e : Error) : Prop :=
  (∀ k : Kind, k.name ≠ Text.canonical entry.1) ∧ e = .unknownKind entry.1 ∨
    (∃ k : Kind, k.name = Text.canonical entry.1) ∧ entry.2.enabled ≠ some false ∧
      ∃ text cause, entry.2.fg = some text ∧ Color.read text = .error cause ∧
        e = .invalidColor cause

/-- The first refused entry by the order of the names. -/
def FirstRefused (entries : List (String × Preferences)) (e : Error) : Prop :=
  ∃ entry ∈ entries, Refused entry e ∧
    ∀ other ∈ entries, Text.bytes other.1 < Text.bytes entry.1 → ∀ e', ¬Refused other e'

/-- The style of a kind by some entries: the default one if no name is that of the kind, and
otherwise the one the entry with the greatest such name gives. -/
def Looks (entries : List (String × Preferences)) (k : Kind) (s : Style) : Prop :=
  (∀ entry ∈ entries, k.name ≠ Text.canonical entry.1) ∧ s = defaultStyle k ∨
    ∃ entry ∈ entries, k.name = Text.canonical entry.1 ∧
      (∀ other ∈ entries, k.name = Text.canonical other.1 → other ≠ entry →
        Text.bytes other.1 < Text.bytes entry.1) ∧ entry.2.Gives k s

theorem setStyle_eq_error_iff {t : StyleTable} {entry : String × Preferences} {e : Error} :
    setStyle t entry = .error e ↔ Refused entry e := by
  unfold setStyle Refused
  cases hread : Kind.read? entry.1 with
  | none =>
      have hnone := Kind.read?_eq_none_iff.mp hread
      constructor
      · intro h
        cases h
        exact Or.inl ⟨hnone, rfl⟩
      · rintro (⟨-, rfl⟩ | ⟨⟨k, hk⟩, -⟩)
        · rfl
        · exact absurd hk (hnone k)
  | some k =>
      have hk := Kind.read?_eq_some_iff.mp hread
      constructor
      · intro h
        cases happly : entry.2.apply k with
        | ok s => simp only [happly] at h; cases h
        | error cause =>
            simp only [happly] at h
            cases h
            obtain ⟨hon, text, hfg, hcolor⟩ := Preferences.apply_eq_error_iff.mp happly
            exact Or.inr ⟨⟨k, hk⟩, hon, text, cause, hfg, hcolor, rfl⟩
      · rintro (⟨hnone, -⟩ | ⟨-, hon, text, cause, hfg, hcolor, rfl⟩)
        · exact absurd hk (hnone k)
        · have happly : entry.2.apply k = .error cause :=
            Preferences.apply_eq_error_iff.mpr ⟨hon, text, hfg, hcolor⟩
          simp only [happly]

theorem exists_of_setStyle_eq_ok {t t' : StyleTable} {entry : String × Preferences}
    (h : setStyle t entry = .ok t') :
    ∃ k s, k.name = Text.canonical entry.1 ∧ entry.2.Gives k s ∧ t' = t.set k s := by
  unfold setStyle at h
  cases hread : Kind.read? entry.1 with
  | none => rw [hread] at h; cases h
  | some k =>
      cases happly : entry.2.apply k with
      | error cause => simp only [hread, happly] at h; cases h
      | ok s =>
          simp only [hread, happly] at h
          cases h
          exact ⟨k, s, Kind.read?_eq_some_iff.mp hread, Preferences.apply_eq_ok_iff.mp happly, rfl⟩

theorem Refused.unique {entry : String × Preferences} {e e' : Error} (h : Refused entry e)
    (h' : Refused entry e') : e = e' := by
  have heq := (setStyle_eq_error_iff (t := .default)).mpr h
  rw [setStyle_eq_error_iff.mpr h'] at heq
  exact (Except.error.inj heq).symm

section Order

variable {entries : List (String × Preferences)}

theorem Ordered.of_concat {last : String × Preferences} (h : Ordered (entries ++ [last])) :
    Ordered entries ∧ ∀ entry ∈ entries, Text.bytes entry.1 < Text.bytes last.1 := by
  obtain ⟨hentries, -, hlast⟩ := List.pairwise_append.mp h
  exact ⟨hentries, fun entry hentry => hlast entry hentry last (by simp)⟩

/-- Two entries with neither name before the other are the same. -/
theorem Ordered.eq_of_not_lt (h : Ordered entries) {a b : String × Preferences} (ha : a ∈ entries)
    (hb : b ∈ entries) (hab : ¬Text.bytes a.1 < Text.bytes b.1)
    (hba : ¬Text.bytes b.1 < Text.bytes a.1) : a = b := by
  induction entries with
  | nil => exact absurd ha List.not_mem_nil
  | cons entry rest ih =>
      obtain ⟨hentry, hrest⟩ := List.pairwise_cons.mp h
      rcases List.mem_cons.mp ha with rfl | ha'
      · rcases List.mem_cons.mp hb with rfl | hb'
        · rfl
        · exact absurd (hentry b hb') hab
      · rcases List.mem_cons.mp hb with rfl | hb'
        · exact absurd (hentry a ha') hba
        · exact ih hrest ha' hb'

/-- A kind has one style. -/
theorem Looks.unique {k : Kind} {s s' : Style} (hs : Looks entries k s)
    (hs' : Looks entries k s') : s = s' := by
  rcases hs with ⟨hnone, rfl⟩ | ⟨a, ha, hka, hgreatest, hgives⟩
  · rcases hs' with ⟨-, rfl⟩ | ⟨a, ha, hka, -⟩
    · rfl
    · exact absurd hka (hnone a ha)
  · rcases hs' with ⟨hnone, -⟩ | ⟨b, hb, hkb, hgreatest', hgives'⟩
    · exact absurd hka (hnone a ha)
    · have hsame : a = b := by
        by_contra hne
        exact List.lt_asymm (hgreatest b hb hkb (Ne.symm hne)) (hgreatest' a ha hka hne)
      rw [hsame] at hgives
      exact hgives.unique hgives'

theorem FirstRefused.unique (h : Ordered entries) {e e' : Error} (he : FirstRefused entries e)
    (he' : FirstRefused entries e') : e = e' := by
  obtain ⟨a, ha, hrefused, hfirst⟩ := he
  obtain ⟨b, hb, hrefused', hfirst'⟩ := he'
  have hsame : a = b := by
    refine h.eq_of_not_lt ha hb (fun hlt => ?_) (fun hlt => ?_)
    · exact hfirst' a ha hlt e hrefused
    · exact hfirst b hb hlt e' hrefused'
  rw [hsame] at hrefused
  exact hrefused.unique hrefused'

end Order

/-! ### All entries -/

/-- One more entry, with a greater name than the others, decides the style of its kind. -/
theorem Looks.concat {entries : List (String × Preferences)} {last : String × Preferences}
    (hlast : ∀ entry ∈ entries, Text.bytes entry.1 < Text.bytes last.1) {t : StyleTable}
    (ht : ∀ k, Looks entries k (t.style k)) {k : Kind} {s : Style}
    (hk : k.name = Text.canonical last.1) (hs : last.2.Gives k s) (l : Kind) :
    Looks (entries ++ [last]) l ((t.set k s).style l) := by
  by_cases hl : l = k
  · rw [hl, StyleTable.style_set_self]
    refine Or.inr ⟨last, by simp, hk, fun other hother _ hne => ?_, hs⟩
    rcases List.mem_append.mp hother with hother | hother
    · exact hlast other hother
    · exact absurd (List.mem_singleton.mp hother) hne
  · rw [StyleTable.style_set_of_ne t s hl]
    have hnot : l.name ≠ Text.canonical last.1 := fun h => hl (Kind.name_injective (h.trans hk.symm))
    rcases ht l with ⟨hnone, hdefault⟩ | ⟨entry, hentry, hname, hgreatest, hgives⟩
    · refine Or.inl ⟨fun other hother => ?_, hdefault⟩
      rcases List.mem_append.mp hother with hother | hother
      · exact hnone other hother
      · rwa [List.mem_singleton.mp hother]
    · refine Or.inr ⟨entry, by simp [hentry], hname, fun other hother hother' hne => ?_, hgives⟩
      rcases List.mem_append.mp hother with hother | hother
      · exact hgreatest other hother hother' hne
      · rw [List.mem_singleton.mp hother] at hother'
        exact absurd hother' hnot

section Concat

variable {entries : List (String × Preferences)} (last : String × Preferences)

theorem foldlM_concat_of_ok {t : StyleTable} (h : entries.foldlM setStyle .default = .ok t) :
    (entries ++ [last]).foldlM setStyle .default = setStyle t last := by
  simp only [List.foldlM_append, h, bind, Except.bind, List.foldlM_cons, List.foldlM_nil]
  cases setStyle t last <;> rfl

theorem foldlM_concat_of_error {e : Error} (h : entries.foldlM setStyle .default = .error e) :
    (entries ++ [last]).foldlM setStyle .default = .error e := by
  simp only [List.foldlM_append, h, bind, Except.bind]

end Concat

/-- Either no entry is refused and all styles are what the entries ask for, or the first that is
refused is reported. -/
theorem foldlM_setStyle_cases {entries : List (String × Preferences)} (h : Ordered entries) :
    (∃ t, entries.foldlM setStyle .default = .ok t ∧ (∀ entry ∈ entries, ∀ e, ¬Refused entry e) ∧
      ∀ k, Looks entries k (t.style k)) ∨
    ∃ e, entries.foldlM setStyle .default = .error e ∧ FirstRefused entries e := by
  induction entries using List.reverseRecOn with
  | nil => exact Or.inl ⟨.default, rfl, by simp, fun k => Or.inl ⟨by simp, rfl⟩⟩
  | append_singleton entries last ih =>
      obtain ⟨hentries, hlast⟩ := h.of_concat
      rcases ih hentries with ⟨t, hok, hfine, hlooks⟩ | ⟨e, herror, entry, hentry, hrefused, hfirst⟩
      · rw [foldlM_concat_of_ok last hok]
        cases hset : setStyle t last with
        | ok t' =>
            obtain ⟨k, s, hk, hs, rfl⟩ := exists_of_setStyle_eq_ok hset
            refine Or.inl ⟨t.set k s, rfl, fun entry hentry e => ?_,
              Looks.concat hlast hlooks hk hs⟩
            rcases List.mem_append.mp hentry with hentry | hentry
            · exact hfine entry hentry e
            · intro hrefused
              rw [List.mem_singleton.mp hentry, ← setStyle_eq_error_iff, hset] at hrefused
              cases hrefused
        | error e =>
            refine Or.inr ⟨e, rfl, last, by simp, setStyle_eq_error_iff.mp hset,
              fun other hother hlt e' => ?_⟩
            rcases List.mem_append.mp hother with hother | hother
            · exact hfine other hother e'
            · rw [List.mem_singleton.mp hother] at hlt
              exact absurd hlt (List.lt_irrefl _)
      · refine Or.inr ⟨e, foldlM_concat_of_error last herror, entry, by simp [hentry], hrefused,
          fun other hother hlt e' => ?_⟩
        rcases List.mem_append.mp hother with hother | hother
        · exact hfirst other hother hlt e'
        · rw [List.mem_singleton.mp hother] at hlt
          exact absurd (hlast entry hentry) (List.lt_asymm hlt)

theorem parts_eq_ok_iff {c : Config} {t : StyleTable} {p : Policy} :
    c.parts = .ok (t, p) ↔ c.styleTable = .ok t ∧ c.policy = .ok p := by
  unfold parts
  cases c.styleTable with
  | error e => simp [bind, Except.bind]
  | ok t' => cases c.policy <;> simp [bind, Except.bind, pure, Except.pure]

theorem parts_eq_error_iff {c : Config} {e : Error} :
    c.parts = .error e ↔
      c.styleTable = .error e ∨ (∃ t, c.styleTable = .ok t) ∧ c.policy = .error e := by
  unfold parts
  cases c.styleTable with
  | error e' => simp [bind, Except.bind]
  | ok t => cases c.policy <;> simp [bind, Except.bind, pure, Except.pure]

/-- **A configuration's style table.**  There is a table if and only if every name is that of a kind
and every colour that is needed can be read, and otherwise the error is that of the first name, by its
bytes, where this fails.  In the table, a kind that no name stands for has its default style, and any
other the style that the preferences under the greatest of its names give, whatever the others say.
So the fixed modifiers of a kind are on in every table.  If the order of precedence is wrong as well,
the error of the table is the one reported. -/
theorem styleTable_eq_ok_iff_looks (c : Config) :
    ((∃ t, c.styleTable = .ok t) ↔ ∀ entry ∈ c.styles, ∀ e, ¬Refused entry e) ∧
    (∀ e, c.styleTable = .error e ↔ FirstRefused c.styles e) ∧
    (∀ t, c.styleTable = .ok t ↔
      (∀ entry ∈ c.styles, ∀ e, ¬Refused entry e) ∧ ∀ k, Looks c.styles k (t.style k)) ∧
    (∀ t, c.styleTable = .ok t → ∀ k, (t.style k).modifiers.Includes (fixedModifiers k)) ∧
    (∀ t p, c.parts = .ok (t, p) ↔ c.styleTable = .ok t ∧ c.policy = .ok p) ∧
    ∀ e, c.parts = .error e ↔
      c.styleTable = .error e ∨ (∃ t, c.styleTable = .ok t) ∧ c.policy = .error e := by
  have hordered := c.ordered_styles
  have hcases := foldlM_setStyle_cases hordered
  have hok : ∀ t, c.styleTable = .ok t ↔
      (∀ entry ∈ c.styles, ∀ e, ¬Refused entry e) ∧ ∀ k, Looks c.styles k (t.style k) := by
    intro t
    rw [styleTable]
    rcases hcases with ⟨t', ht', hfine, hlooks⟩ | ⟨e, herror, entry, hentry, hrefused, -⟩
    · rw [ht']
      constructor
      · intro heq
        cases heq
        exact ⟨hfine, hlooks⟩
      · rintro ⟨-, hlooks'⟩
        have hsame : t'.style = t.style := funext fun k => (hlooks k).unique (hlooks' k)
        exact congrArg Except.ok (congrArg StyleTable.mk hsame)
    · rw [herror]
      refine ⟨(nomatch ·), ?_⟩
      rintro ⟨hfine, -⟩
      exact absurd hrefused (hfine entry hentry e)
  refine ⟨?_, fun e => ?_, hok, fun t ht k => ?_, fun t p => parts_eq_ok_iff,
    fun e => parts_eq_error_iff⟩
  · constructor
    · rintro ⟨t, ht⟩
      exact ((hok t).mp ht).1
    · intro hfine
      rcases hcases with ⟨t, ht, -⟩ | ⟨e, -, entry, hentry, hrefused, -⟩
      · exact ⟨t, ht⟩
      · exact absurd hrefused (hfine entry hentry e)
  · rw [styleTable]
    rcases hcases with ⟨t, ht, hfine, -⟩ | ⟨e', herror, hfirst⟩
    · rw [ht]
      refine ⟨(nomatch ·), ?_⟩
      rintro ⟨entry, hentry, hrefused, -⟩
      exact absurd hrefused (hfine entry hentry e)
    · rw [herror]
      constructor
      · intro heq
        cases heq
        exact hfirst
      · intro hfirst'
        rw [hfirst.unique hordered hfirst']
  · rcases ((hok t).mp ht).2 k with ⟨-, hdefault⟩ | ⟨entry, -, -, -, hgives⟩
    · rw [hdefault]
      exact StyleTable.defaultStyle_includes k
    · exact hgives.includes

/-- The first two names are those of one kind.  What is under the first of them has no effect, and
as it is switched off, its colour is not read either. -/
theorem styleTable_twoSpellings :
    let c : Config := { styles := [
      ("LOCAL_VAR", { enabled := some false, fg := some "#12345", italic := some true }),
      ("local-var", { fg := some "#c00", bold := some true }),
      ("undefined-ref", { underline := some false })] }
    ∃ t, c.styleTable = .ok t ∧
      t.style .localVar = ⟨some (.rgb 204 0 0), { bold := true }⟩ ∧
      Looks c.styles .localVar (t.style .localVar) ∧
      (t.style .undefinedRef).modifiers.Includes { underlined := true } := by
  intro c
  have hstyle : (c.styleTable.map fun t => t.style .localVar) =
      .ok ⟨some (.rgb 204 0 0), { bold := true }⟩ := rfl
  obtain ⟨-, -, hok, hfixed, -⟩ := styleTable_eq_ok_iff_looks c
  cases ht : c.styleTable with
  | error e => rw [ht] at hstyle; cases hstyle
  | ok t =>
      rw [ht] at hstyle
      exact ⟨t, rfl, Except.ok.inj hstyle, ((hok t).mp ht).2 .localVar,
        hfixed t ht .undefinedRef⟩

end Config

end Highlighting
