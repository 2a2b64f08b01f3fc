/-
No table of a text that is read has a key twice.

A table may be written in several places and through other tables, so what is kept is
that a draft has each key once at every depth.  An item is only added under a key that is
not there, and one that is there is only replaced under its own key: the keys of a draft
never change in any other way.  Inline tables are made of drafts too, and are closed when
they become values.
-/
import Highlighting.Toml.Document
import Mathlib

namespace Highlighting.Toml

/-- No table in a value has a key twice. -/
inductive Value.Distinct : Value → Prop
  | string (text : String) : Distinct (.string text)
  | boolean (b : Bool) : Distinct (.boolean b)
  | number (written : String) : Distinct (.number written)
  | time (written : String) : Distinct (.time written)
  | array {items : List Value} (h : ∀ v ∈ items, Distinct v) : Distinct (.array items)
  | table {entries : List (String × Value)} (hkeys : (entries.map Prod.fst).Nodup)
      (h : ∀ e ∈ entries, Distinct e.2) : Distinct (.table entries)

/-- No table in an item has a key twice. -/
inductive Item.Distinct : Item → Prop
  | value {v : Value} (h : v.Distinct) : Distinct (.value v)
  | table {origin : Origin} {entries : Draft} (hkeys : (entries.map Prod.fst).Nodup)
      (h : ∀ e ∈ entries, Distinct e.2) : Distinct (.table origin entries)
  | tables {elements : List Draft} (hkeys : ∀ d ∈ elements, (d.map Prod.fst).Nodup)
      (h : ∀ d ∈ elements, ∀ e ∈ d, Distinct e.2) : Distinct (.tables elements)

/-- No table in a draft has a key twice, nor has the draft. -/
structure Draft.Distinct (d : Draft) : Prop where
  keys : (d.map Prod.fst).Nodup
  items : ∀ e ∈ d, e.2.Distinct

theorem Draft.Distinct.table {d : Draft} (h : d.Distinct) (origin : Origin) :
    (Item.table origin d).Distinct :=
  .table h.keys h.items

theorem Item.Distinct.draft {origin : Origin} {d : Draft} (h : (Item.table origin d).Distinct) :
    d.Distinct := by
  cases h with
  | table hkeys h => exact ⟨hkeys, h⟩

theorem Item.Distinct.latest {d : Draft} {earlier : List Draft}
    (h : (Item.tables (d :: earlier)).Distinct) : d.Distinct := by
  cases h with
  | tables hkeys h => exact ⟨hkeys d List.mem_cons_self, h d List.mem_cons_self⟩

theorem Draft.Distinct.tables {d : Draft} {elements : List Draft} (hd : d.Distinct)
    (h : (Item.tables elements).Distinct) : (Item.tables (d :: elements)).Distinct := by
  cases h with
  | tables hkeys h =>
      exact .tables (List.forall_mem_cons.mpr ⟨hd.keys, hkeys⟩)
        (List.forall_mem_cons.mpr ⟨hd.items, h⟩)

theorem Item.Distinct.earlier {d : Draft} {earlier : List Draft}
    (h : (Item.tables (d :: earlier)).Distinct) : (Item.tables earlier).Distinct := by
  cases h with
  | tables hkeys h =>
      exact .tables (List.forall_mem_cons.mp hkeys).2 (List.forall_mem_cons.mp h).2

/-! ### Writing a table -/

namespace Draft

theorem distinct_nil : Draft.Distinct [] := ⟨List.nodup_nil, by simp⟩

theorem mem_of_get? {d : Draft} {k : String} {i : Item} (h : d.get? k = some i) : (k, i) ∈ d := by
  obtain ⟨before, after, rfl, -⟩ := List.lookup_eq_some_iff.mp h
  simp

theorem get?_eq_none_iff {d : Draft} {k : String} : d.get? k = none ↔ k ∉ d.map Prod.fst := by
  rw [get?, List.lookup_eq_none_iff, List.mem_map]
  constructor
  · rintro h ⟨e, he, rfl⟩
    simpa using h e he
  · intro h e he
    simp only [bne_iff_ne, ne_eq]
    exact fun heq => h ⟨e, he, heq.symm⟩

theorem has_iff {d : Draft} {k : String} : d.has k = true ↔ k ∈ d.map Prod.fst := by
  simp [has]

theorem keys_replace (d : Draft) (k : String) (i : Item) :
    (d.replace k i).map Prod.fst = d.map Prod.fst := by
  rw [replace, List.map_map]
  refine List.map_congr_left fun e _ => ?_
  by_cases h : e.1 = k <;> simp [h]

namespace Distinct

variable {d d' : Draft}

theorem get? (hd : d.Distinct) {k : String} {i : Item} (h : d.get? k = some i) : i.Distinct :=
  hd.items _ (mem_of_get? h)

theorem put (hd : d.Distinct) {k : String} (hk : k ∉ d.map Prod.fst) {i : Item}
    (hi : i.Distinct) : (d.put k i).Distinct := by
  refine ⟨?_, ?_⟩
  · rw [Draft.put, List.map_append]
    exact hd.keys.append (List.nodup_singleton k) (by simpa using hk)
  · intro e he
    rcases List.mem_append.mp he with he | he
    · exact hd.items e he
    · rwa [List.mem_singleton.mp he]

theorem replace (hd : d.Distinct) (k : String) {i : Item} (hi : i.Distinct) :
    (d.replace k i).Distinct := by
  refine ⟨by rw [keys_replace]; exact hd.keys, fun e he => ?_⟩
  obtain ⟨e', he', rfl⟩ := List.mem_map.mp he
  by_cases h : e'.1 = k
  · simpa [h] using hi
  · simpa [h] using hd.items e' he'

theorem assign (hd : d.Distinct) {key : List String} {v : Value} (hv : v.Distinct)
    (h : d.assign key v = some d') : d'.Distinct := by
  induction key generalizing d d' with
  | nil => cases h
  | cons k rest ih =>
      cases rest with
      | nil =>
          rw [Draft.assign] at h
          split at h
          · cases h
          · next hhas =>
              cases h
              exact hd.put (fun hmem => hhas (has_iff.mpr hmem)) (.value hv)
      | cons l rest =>
          rw [Draft.assign] at h
          split at h
          · next hnone =>
              obtain ⟨inner, hinner, h⟩ := Option.bind_eq_some_iff.mp h
              cases h
              exact hd.put (get?_eq_none_iff.mp hnone) ((ih distinct_nil hinner).table _)
          · next origin entries hsome =>
              obtain ⟨-, -, h⟩ := Option.bind_eq_some_iff.mp h
              obtain ⟨inner, hinner, h⟩ := Option.bind_eq_some_iff.mp h
              cases h
              exact hd.replace k ((ih (hd.get? hsome).draft hinner).table origin)
          · cases h

/-- What may be done to a draft on its own may be done to any that a path leads to. -/
theorem within (hd : d.Distinct) {path : List String} {change : Draft → Option Draft}
    (hchange : ∀ e e', e.Distinct → change e = some e' → e'.Distinct)
    (h : d.within path change = some d') : d'.Distinct := by
  induction path generalizing d d' with
  | nil => exact hchange d d' hd h
  | cons k rest ih =>
      rw [Draft.within] at h
      split at h
      · next hnone =>
          obtain ⟨inner, hinner, h⟩ := Option.bind_eq_some_iff.mp h
          cases h
          exact hd.put (get?_eq_none_iff.mp hnone) ((ih distinct_nil hinner).table _)
      · next origin entries hsome =>
          obtain ⟨inner, hinner, h⟩ := Option.bind_eq_some_iff.mp h
          cases h
          exact hd.replace k ((ih (hd.get? hsome).draft hinner).table origin)
      · next latest earlier hsome =>
          obtain ⟨inner, hinner, h⟩ := Option.bind_eq_some_iff.mp h
          cases h
          have hnew := ih (hd.get? hsome).latest hinner
          exact hd.replace k (hnew.tables (hd.get? hsome).earlier)
      · cases h

theorem openHere (hd : d.Distinct) {k : String} (h : d.openHere k = some d') : d'.Distinct := by
  rw [Draft.openHere] at h
  split at h
  · next hnone =>
      cases h
      exact hd.put (get?_eq_none_iff.mp hnone) (distinct_nil.table _)
  · next entries hsome =>
      cases h
      exact hd.replace k ((hd.get? hsome).draft.table _)
  · cases h

theorem extendHere (hd : d.Distinct) {k : String} (h : d.extendHere k = some d') :
    d'.Distinct := by
  rw [Draft.extendHere] at h
  split at h
  · next hnone =>
      cases h
      exact hd.put (get?_eq_none_iff.mp hnone) (distinct_nil.tables (.tables (by simp) (by simp)))
  · next elements hsome =>
      cases h
      exact hd.replace k (distinct_nil.tables (hd.get? hsome))
  · cases h

end Distinct

end Draft

/-! ### Closing a table -/

theorem finishEntries_eq_map (d : Draft) :
    finishEntries d = d.map fun e => (e.1, e.2.finish) := by
  induction d with
  | nil => rfl
  | cons e rest ih => rw [finishEntries, ih, List.map_cons]

theorem finishTables_eq_map (elements : List Draft) :
    finishTables elements = elements.map fun d => .table (finishEntries d) := by
  induction elements with
  | nil => rfl
  | cons d rest ih => rw [finishTables, ih, List.map_cons]

theorem keys_finishEntries (d : Draft) : (finishEntries d).map Prod.fst = d.map Prod.fst := by
  rw [finishEntries_eq_map, List.map_map]
  rfl

theorem distinct_finishEntries {d : Draft} (hkeys : (d.map Prod.fst).Nodup)
    (h : ∀ e ∈ d, e.2.finish.Distinct) : (Value.table (finishEntries d)).Distinct := by
  refine .table (by rwa [keys_finishEntries]) fun e he => ?_
  rw [finishEntries_eq_map] at he
  obtain ⟨e', he', rfl⟩ := List.mem_map.mp he
  exact h e' he'

theorem Item.Distinct.finish {i : Item} (h : i.Distinct) : i.finish.Distinct := by
  induction h with
  | value hv => exact hv
  | table hkeys _ ih => exact distinct_finishEntries hkeys ih
  | tables hkeys _ ih =>
      rw [Item.finish]
      refine .array fun v hv => ?_
      rw [List.mem_reverse, finishTables_eq_map] at hv
      obtain ⟨d, hd, rfl⟩ := List.mem_map.mp hv
      exact distinct_finishEntries (hkeys d hd) (ih d hd)

theorem Draft.Distinct.finish {d : Draft} (hd : d.Distinct) :
    (Value.table (finishEntries d)).Distinct :=
  distinct_finishEntries hd.keys fun e he => (hd.items e he).finish

/-- What every step of a fold that succeeds keeps, the fold keeps. -/
theorem of_foldlM {α β : Type} {P : β → Prop} {f : β → α → Option β} {l : List α}
    (hstep : ∀ b, ∀ a ∈ l, ∀ b', P b → f b a = some b' → P b') {b b' : β} (hb : P b)
    (h : l.foldlM f b = some b') : P b' := by
  induction l generalizing b with
  | nil => cases h; exact hb
  | cons a l ih =>
      obtain ⟨c, hc, h⟩ := Option.bind_eq_some_iff.mp h
      exact ih (fun b a ha => hstep b a (List.mem_cons_of_mem _ ha))
        (hstep b a List.mem_cons_self c hb hc) h

theorem distinct_tableOf {pairs : List (List String × Value)} (hpairs : ∀ p ∈ pairs, p.2.Distinct)
    {v : Value} (h : tableOf pairs = some v) : v.Distinct := by
  obtain ⟨d, hd, h⟩ := Option.bind_eq_some_iff.mp h
  cases h
  have hdistinct : d.Distinct :=
    of_foldlM (fun _ p hp _ hb => hb.assign (hpairs p hp)) Draft.distinct_nil hd
  exact hdistinct.finish

/-! ### Reading values -/

theorem distinct_word? {w : List Char} {v : Value} (h : word? w = some v) : v.Distinct := by
  unfold word? at h
  split_ifs at h <;> cases h <;> constructor

theorem distinct_simpleValue {s : List Char} {v : Value} {r : Rest s}
    (h : simpleValue s = some (v, r)) : v.Distinct := by
  cases s with
  | nil => cases h
  | cons c s =>
      rw [simpleValue] at h
      split_ifs at h
      · obtain ⟨⟨text, rest⟩, -, h⟩ := Option.bind_eq_some_iff.mp h
        cases h
        exact .string text
      · rw [word] at h
        obtain ⟨-, -, h⟩ := Option.bind_eq_some_iff.mp h
        obtain ⟨v', hv', h⟩ := Option.bind_eq_some_iff.mp h
        cases h
        exact distinct_word? hv'

/-- What a reader only gives, a list of its items only holds. -/
theorem of_mem_items {α : Type} {P : α → Prop} {item : Reader α} {close : Char}
    (hitem : ∀ s x r, item s = some (x, r) → P x) (s : List Char) {xs : List α} {r : Rest s}
    (h : items item close s = some (xs, r)) : ∀ x ∈ xs, P x := by
  induction hn : s.length using Nat.strongRecOn generalizing s xs with
  | ind n ih =>
      rw [items] at h
      obtain ⟨t, -, h⟩ := Option.bind_eq_some_iff.mp h
      split at h
      · cases h
        simp
      · obtain ⟨⟨x, u⟩, hx, h⟩ := Option.bind_eq_some_iff.mp h
        obtain ⟨v, -, h⟩ := Option.bind_eq_some_iff.mp h
        simp only at h
        split at h
        · cases h
          simpa using hitem _ _ _ hx
        · obtain ⟨⟨_, w⟩, -, h⟩ := Option.bind_eq_some_iff.mp h
          obtain ⟨⟨xs', z⟩, hxs, h⟩ := Option.bind_eq_some_iff.mp h
          cases h
          refine List.forall_mem_cons.mpr ⟨hitem _ _ _ hx, ?_⟩
          exact ih _ (hn ▸ (((t.rest u).tail v).rest w).2) _ hxs rfl

theorem distinct_pair {readValue : Reader Value}
    (hvalue : ∀ s v r, readValue s = some (v, r) → v.Distinct) (s : List Char)
    (p : List String × Value) (r : Rest s) (h : pair readValue s = some (p, r)) : p.2.Distinct := by
  obtain ⟨⟨k, t⟩, -, h⟩ := Option.bind_eq_some_iff.mp h
  obtain ⟨t', -, h⟩ := Option.bind_eq_some_iff.mp h
  obtain ⟨⟨_, v⟩, -, h⟩ := Option.bind_eq_some_iff.mp h
  obtain ⟨v', -, h⟩ := Option.bind_eq_some_iff.mp h
  obtain ⟨⟨x, y⟩, hx, h⟩ := Option.bind_eq_some_iff.mp h
  cases h
  exact hvalue _ x y hx

theorem distinct_value (depth : Nat) (s : List Char) (v : Value) (r : Rest s)
    (h : value depth s = some (v, r)) : v.Distinct := by
  induction depth generalizing s v with
  | zero => exact distinct_simpleValue h
  | succ depth ih =>
      unfold value at h
      generalize hdepth : depth + 1 = n at h
      split at h
      · cases hdepth
      · cases hdepth
        obtain ⟨⟨xs, t⟩, hxs, h⟩ := Option.bind_eq_some_iff.mp h
        cases h
        exact .array (of_mem_items ih _ hxs)
      · cases hdepth
        obtain ⟨⟨pairs, t⟩, hpairs, h⟩ := Option.bind_eq_some_iff.mp h
        obtain ⟨table, htable, h⟩ := Option.bind_eq_some_iff.mp h
        cases h
        exact distinct_tableOf (of_mem_items (distinct_pair ih) _ hpairs) htable
      · exact distinct_simpleValue h

/-! ### Reading a text -/

/-- The value that a statement assigns has no key twice. -/
def Statement.Distinct : Statement → Prop
  | .assign _ v => v.Distinct
  | .header _ => True
  | .another _ => True

theorem distinct_statement {s : List Char} {x : Statement} {r : Rest s}
    (h : statement s = some (x, r)) : x.Distinct := by
  unfold statement at h
  split at h
  · unfold header at h
    split at h
    · obtain ⟨⟨k, t⟩, -, h⟩ := Option.bind_eq_some_iff.mp h
      obtain ⟨⟨_, u⟩, -, h⟩ := Option.bind_eq_some_iff.mp h
      obtain ⟨⟨_, v⟩, -, h⟩ := Option.bind_eq_some_iff.mp h
      cases h
      trivial
    · obtain ⟨⟨k, t⟩, -, h⟩ := Option.bind_eq_some_iff.mp h
      obtain ⟨⟨_, u⟩, -, h⟩ := Option.bind_eq_some_iff.mp h
      cases h
      trivial
    · cases h
  · obtain ⟨⟨k, t⟩, -, h⟩ := Option.bind_eq_some_iff.mp h
    obtain ⟨⟨_, u⟩, -, h⟩ := Option.bind_eq_some_iff.mp h
    obtain ⟨⟨v, w⟩, hv, h⟩ := Option.bind_eq_some_iff.mp h
    cases h
    exact distinct_value _ _ v w hv

theorem distinct_statements (s : List Char) {xs : List Statement} (h : statements s = some xs) :
    ∀ x ∈ xs, x.Distinct := by
  induction hn : s.length using Nat.strongRecOn generalizing s xs with
  | ind n ih =>
      rw [statements] at h
      obtain ⟨t, -, h⟩ := Option.bind_eq_some_iff.mp h
      split at h
      · cases h
        simp
      · obtain ⟨⟨x, u⟩, hx, h⟩ := Option.bind_eq_some_iff.mp h
        obtain ⟨v, -, h⟩ := Option.bind_eq_some_iff.mp h
        obtain ⟨xs', hxs, h⟩ := Option.bind_eq_some_iff.mp h
        cases h
        refine List.forall_mem_cons.mpr ⟨distinct_statement hx, ?_⟩
        exact ih _ (hn ▸ ((t.rest u).tail v).2) _ hxs rfl

theorem Writing.distinct_step {w w' : Writing} (hw : w.draft.Distinct) {x : Statement}
    (hx : x.Distinct) (h : w.step x = some w') : w'.draft.Distinct := by
  cases x with
  | assign k v =>
      obtain ⟨d, hd, h⟩ := Option.bind_eq_some_iff.mp h
      cases h
      exact hw.within (fun _ _ he => he.assign hx) hd
  | header k =>
      obtain ⟨last, -, h⟩ := Option.bind_eq_some_iff.mp h
      obtain ⟨d, hd, h⟩ := Option.bind_eq_some_iff.mp h
      cases h
      exact hw.within (fun _ _ he => he.openHere) hd
  | another k =>
      obtain ⟨last, -, h⟩ := Option.bind_eq_some_iff.mp h
      obtain ⟨d, hd, h⟩ := Option.bind_eq_some_iff.mp h
      cases h
      exact hw.within (fun _ _ he => he.extendHere) hd

/-- **No table of a text has a key twice**, neither the outermost nor one inside it. -/
theorem distinct_of_read? {text : String} {entries : List (String × Value)}
    (h : read? text = some entries) : (Value.table entries).Distinct := by
  obtain ⟨xs, hxs, h⟩ := Option.bind_eq_some_iff.mp h
  obtain ⟨w, hw, h⟩ := Option.bind_eq_some_iff.mp h
  cases h
  have hdistinct : w.draft.Distinct :=
    of_foldlM (fun _ x hx _ hb => Writing.distinct_step hb (distinct_statements _ hxs x hx))
      Draft.distinct_nil hw
  exact hdistinct.finish

end Highlighting.Toml
