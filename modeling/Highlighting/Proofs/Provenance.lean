/-
Where the kinds on the screen come from.

Time and again a list of highlights is wanted, and what is shown is changed to look
like it.  A highlight whose look is wanted again stays as it is, kind included, so a
kind on the screen may be out of date.  It is the kind that was wanted when its look
came up; since then the look was wanted every time, whatever the kinds.

No two highlights of a list look the same here, but they may share a span.  One change
keeps those whose look is wanted and takes in those whose look is not shown.  The rest
is induction over the lists that were wanted, from the first on.
-/
import Highlighting.Proofs.Delta
import Mathlib

namespace Highlighting

/-- No two of the highlights look the same. -/
def Distinct (hs : List Highlight) : Prop := (hs.map Highlight.appearance).Nodup

instance (hs : List Highlight) : Decidable (Distinct hs) :=
  inferInstanceAs (Decidable (List.Nodup _))

theorem Distinct.eq_of_look {hs : List Highlight} (h : Distinct hs) {a b : Highlight} (ha : a ∈ hs)
    (hb : b ∈ hs) (hlook : a.appearance = b.appearance) : a = b :=
  List.inj_on_of_nodup_map h ha hb hlook

namespace Delta

/-! ### One change -/

section Change

variable {shown wanted : List Highlight} {h : Highlight}

/-- What is added are the highlights whose look is not shown. -/
theorem mem_between_add (hw : Distinct wanted) : h ∈ (between shown wanted).add ↔
    h ∈ wanted ∧ h.appearance ∉ shown.map Highlight.appearance := by
  rw [between_eq_subtract, Tally.subtract_eq_filter _ _ hw, List.mem_filter]
  simp

/-- What is removed are the highlights whose look is not wanted. -/
theorem mem_between_remove (hs : Distinct shown) : h ∈ (between shown wanted).remove ↔
    h ∈ shown ∧ h.appearance ∉ wanted.map Highlight.appearance := by
  rw [between_eq_subtract, Tally.subtract_eq_filter _ _ hs, List.mem_filter]
  simp

/-- A highlight is shown after a change if it was shown and its look is wanted, or if it is wanted
and its look was not shown. -/
theorem mem_apply_between (hs : Distinct shown) (hw : Distinct wanted) :
    h ∈ (between shown wanted).apply shown ↔
      h ∈ shown ∧ h.appearance ∈ wanted.map Highlight.appearance ∨
        h ∈ wanted ∧ h.appearance ∉ shown.map Highlight.appearance := by
  have hstays : h ∈ (between shown wanted).remove.foldl List.erase shown ↔
      h ∈ shown ∧ h.appearance ∈ wanted.map Highlight.appearance := by
    rw [← List.diff_eq_foldl, List.Nodup.mem_sdiff_iff (.of_map _ hs), mem_between_remove hs]
    tauto
  rw [apply_eq_paint, paint, List.mem_mergeSort, List.mem_append, hstays, mem_between_add hw]

theorem distinct_apply_between (shown : List Highlight) (hw : Distinct wanted) :
    Distinct ((between shown wanted).apply shown) :=
  (apply_between_perm shown wanted).nodup_iff.mpr hw

end Change

/-! ### List after list -/

/-- What is shown after some lists were wanted in turn, nothing being shown at first. -/
def shownAfter (ws : List (List Highlight)) : List Highlight :=
  ws.foldl (fun shown wanted => (between shown wanted).apply shown) []

theorem shownAfter_concat (ws : List (List Highlight)) (w : List Highlight) :
    shownAfter (ws ++ [w]) = (between (shownAfter ws) w).apply (shownAfter ws) := by
  simp [shownAfter]

/-- What is shown looks like what was wanted last. -/
theorem looks_shownAfter (ws : List (List Highlight)) :
    ((shownAfter ws).map Highlight.appearance).Perm
      ((ws.getLastD []).map Highlight.appearance) := by
  induction ws using List.reverseRecOn with
  | nil => exact List.Perm.refl _
  | append_singleton ws w _ =>
      rw [shownAfter_concat, List.getLastD_concat]
      exact apply_between_perm _ _

theorem distinct_shownAfter {ws : List (List Highlight)} (hws : ∀ w ∈ ws, Distinct w) :
    Distinct (shownAfter ws) := by
  induction ws using List.reverseRecOn with
  | nil => exact List.nodup_nil
  | append_singleton ws w _ =>
      rw [shownAfter_concat]
      exact distinct_apply_between _ (hws w (by simp))

/-- One more list. -/
theorem mem_shownAfter_concat {ws : List (List Highlight)} {w : List Highlight}
    (hws : ∀ w' ∈ ws ++ [w], Distinct w') {h : Highlight} :
    h ∈ shownAfter (ws ++ [w]) ↔
      h ∈ shownAfter ws ∧ h.appearance ∈ w.map Highlight.appearance ∨
        h ∈ w ∧ h.appearance ∉ (ws.getLastD []).map Highlight.appearance := by
  rw [shownAfter_concat, mem_apply_between
    (distinct_shownAfter fun w' hw' => hws w' (List.mem_append_left _ hw')) (hws w (by simp)),
    (looks_shownAfter ws).mem_iff]

/-! ### Since when a look is there -/

/-- A look is wanted by the list with this number, counted from zero, and by all later ones. -/
def WantedSince (ws : List (List Highlight)) (look : Appearance) (m : Nat) : Prop :=
  ∀ w ∈ ws.drop m, look ∈ w.map Highlight.appearance

instance (ws : List (List Highlight)) (look : Appearance) (m : Nat) :
    Decidable (WantedSince ws look m) :=
  inferInstanceAs (Decidable (∀ w ∈ ws.drop m, look ∈ w.map Highlight.appearance))

/-- The number of the list with which a look came up: it is the least one since which the look was
always wanted. -/
structure CameUpAt (ws : List (List Highlight)) (look : Appearance) (m : Nat) : Prop where
  lt : m < ws.length
  since : WantedSince ws look m
  least : ∀ m', WantedSince ws look m' → m ≤ m'

section CameUp

variable {ws : List (List Highlight)} {w : List Highlight} {look : Appearance} {m : Nat}

theorem wantedSince_concat (hm : m ≤ ws.length) : WantedSince (ws ++ [w]) look m ↔
    WantedSince ws look m ∧ look ∈ w.map Highlight.appearance := by
  rw [WantedSince, List.drop_append_of_le_length hm]
  constructor
  · intro h
    exact ⟨fun w' hw' => h w' (List.mem_append_left _ hw'), h w (by simp)⟩
  · rintro ⟨hws, hw⟩ w' hw'
    rcases List.mem_append.mp hw' with hw' | hw'
    · exact hws w' hw'
    · rw [List.mem_singleton.mp hw']
      exact hw

/-- A look that is wanted since some list is wanted by the last one. -/
theorem WantedSince.last (h : WantedSince ws look m) (hlt : m < ws.length) :
    look ∈ (ws.getLastD []).map Highlight.appearance := by
  have hne : ws.drop m ≠ [] := by simpa using hlt
  have hlast := h _ (List.getLast_mem hne)
  rw [List.getLast_drop] at hlast
  rwa [List.getLastD_eq_getLast?, List.getLast?_eq_some_getLast]

theorem CameUpAt.concat (h : CameUpAt ws look m) (hw : look ∈ w.map Highlight.appearance) :
    CameUpAt (ws ++ [w]) look m := by
  have hlt := h.lt
  refine ⟨by rw [List.length_append]; omega, ?_, fun m' hm' => ?_⟩
  · exact (wantedSince_concat (Nat.le_of_lt hlt)).mpr ⟨h.since, hw⟩
  · by_cases hle : m' ≤ ws.length
    · exact h.least m' ((wantedSince_concat hle).mp hm').1
    · omega

/-- A look that was not wanted last comes up with the next list that has it. -/
theorem cameUpAt_length (hw : look ∈ w.map Highlight.appearance)
    (hlast : look ∉ (ws.getLastD []).map Highlight.appearance) :
    CameUpAt (ws ++ [w]) look ws.length := by
  refine ⟨by simp, ?_, fun m' hm' => ?_⟩
  · refine (wantedSince_concat (Nat.le_refl _)).mpr ⟨fun w' hw' => ?_, hw⟩
    simp at hw'
  · -- an earlier number would put the look into the last of the lists before
    by_contra hlt
    have hsince := ((wantedSince_concat (by omega)).mp hm').1
    exact hlast (hsince.last (by omega))

theorem CameUpAt.unique {n : Nat} (h : CameUpAt ws look m) (h' : CameUpAt ws look n) : m = n :=
  Nat.le_antisymm (h.least n h'.since) (h'.least m h.since)

end CameUp

/-! ### What is shown, and where it comes from -/

section Provenance

variable {ws : List (List Highlight)} {h : Highlight}

/-- What is shown was wanted when its look came up. -/
theorem exists_cameUpAt (hws : ∀ w ∈ ws, Distinct w) (hh : h ∈ shownAfter ws) :
    ∃ m w, CameUpAt ws h.appearance m ∧ ws[m]? = some w ∧ h ∈ w := by
  induction ws using List.reverseRecOn with
  | nil => exact absurd hh List.not_mem_nil
  | append_singleton ws w ih =>
      rcases (mem_shownAfter_concat hws).mp hh with ⟨hshown, hw⟩ | ⟨hw, hlast⟩
      · obtain ⟨m, w', hm, hget, hmem⟩ :=
          ih (fun w' hw' => hws w' (List.mem_append_left _ hw')) hshown
        exact ⟨m, w', hm.concat hw, by rw [List.getElem?_append_left hm.lt, hget], hmem⟩
      · exact ⟨ws.length, w, cameUpAt_length (List.mem_map_of_mem hw) hlast,
          List.getElem?_concat_length, hw⟩

/-- A highlight that was wanted when its look came up is shown: some highlight with that look is,
and it was wanted at the same time. -/
theorem mem_shownAfter_of_cameUpAt (hws : ∀ w ∈ ws, Distinct w) {m : Nat} {w : List Highlight}
    (hm : CameUpAt ws h.appearance m) (hget : ws[m]? = some w) (hh : h ∈ w) :
    h ∈ shownAfter ws := by
  have hlook := (looks_shownAfter ws).mem_iff.mpr (hm.since.last hm.lt)
  obtain ⟨h', hh', heq⟩ := List.mem_map.mp hlook
  obtain ⟨m', w', hm', hget', hmem'⟩ := exists_cameUpAt hws hh'
  rw [heq] at hm'
  rw [← hm.unique hm', hget] at hget'
  cases hget'
  have hsame : h = h' := (hws w (List.mem_of_getElem? hget)).eq_of_look hh hmem' heq.symm
  rw [hsame]
  exact hh'

/-- A highlight stays as long as its look is wanted. -/
theorem mem_shownAfter_append {before during : List (List Highlight)}
    (hws : ∀ w ∈ before ++ during, Distinct w) (hh : h ∈ shownAfter before)
    (hlook : ∀ w ∈ during, h.appearance ∈ w.map Highlight.appearance) :
    h ∈ shownAfter (before ++ during) := by
  induction during using List.reverseRecOn with
  | nil => rwa [List.append_nil]
  | append_singleton during w ih =>
      rw [← List.append_assoc] at hws ⊢
      refine (mem_shownAfter_concat hws).mpr (Or.inl ⟨ih ?_ ?_, hlook w (by simp)⟩)
      · exact fun w' hw' => hws w' (List.mem_append_left _ hw')
      · exact fun w' hw' => hlook w' (List.mem_append_left _ hw')

/-- **A kind on the screen is the one that was wanted when its look came up.**  Let lists of
highlights be wanted one after the other, no two highlights of a list looking the same, and nothing
be shown at first.  What is shown then looks like what was wanted last, and a highlight is shown if
and only if it is in the list with which its look came up.  As long as its look is wanted a
highlight stays as it is, and none of the changes made meanwhile adds or removes its look. -/
theorem shownAfter_provenance (ws : List (List Highlight)) (hws : ∀ w ∈ ws, Distinct w) :
    ((shownAfter ws).map Highlight.appearance).Perm
      ((ws.getLastD []).map Highlight.appearance) ∧
    (∀ h, h ∈ shownAfter ws ↔ ∃ m w, CameUpAt ws h.appearance m ∧ ws[m]? = some w ∧ h ∈ w) ∧
    ∀ before during, ws = before ++ during → ∀ h ∈ shownAfter before,
      (∀ w ∈ during, h.appearance ∈ w.map Highlight.appearance) →
        h ∈ shownAfter ws ∧
        ∀ earlier w later, during = earlier ++ w :: later →
          let d := between (shownAfter (before ++ earlier)) w
          (∀ a ∈ d.add, a.appearance ≠ h.appearance) ∧
            ∀ r ∈ d.remove, r.appearance ≠ h.appearance := by
  refine ⟨looks_shownAfter ws, fun h => ⟨exists_cameUpAt hws, ?_⟩, ?_⟩
  · rintro ⟨m, w, hm, hget, hh⟩
    exact mem_shownAfter_of_cameUpAt hws hm hget hh
  · rintro before during rfl h hh hlook
    refine ⟨mem_shownAfter_append hws hh hlook, ?_⟩
    rintro earlier w later rfl d
    have hbefore : ∀ w' ∈ before ++ earlier, Distinct w' := fun w' hw' => hws w' (by
      rw [← List.append_assoc]
      exact List.mem_append_left _ hw')
    have hshown : h ∈ shownAfter (before ++ earlier) :=
      mem_shownAfter_append hbefore hh fun w' hw' => hlook w' (List.mem_append_left _ hw')
    have hw : w ∈ earlier ++ w :: later := by simp
    refine ⟨fun a ha heq => ?_, fun r hr heq => ?_⟩
    · have hnew := ((mem_between_add (hws w (List.mem_append_right _ hw))).mp ha).2
      rw [heq] at hnew
      exact hnew (List.mem_map_of_mem hshown)
    · have hgone := ((mem_between_remove (distinct_shownAfter hbefore)).mp hr).2
      rw [heq] at hgone
      exact hgone (hlook w hw)

end Provenance

/-- A declaration goes away, a constructor that looks like it comes up, along with a number at the
same span, and then the declaration is wanted again: the constructor is still shown. -/
theorem shownAfter_outdated_kind :
    let declared : Highlight := ⟨⟨3, 4, .methodDecl, by decide⟩, .plain⟩
    let ctor : Highlight := ⟨⟨3, 4, .ctorDecl, by decide⟩, .plain⟩
    let number : Highlight := ⟨⟨3, 4, .number, by decide⟩, ⟨some (.rgb 125 78 0), {}⟩⟩
    let before := [[declared], [], [number, ctor]]
    (∀ w ∈ before ++ [[declared]], Distinct w) ∧ CameUpAt before ctor.appearance 2 ∧
      ctor ∈ shownAfter (before ++ [[declared]]) ∧
      ∀ a ∈ (between (shownAfter before) [declared]).add, a.appearance ≠ ctor.appearance := by
  intro declared ctor number before
  have hws : ∀ w ∈ before ++ [[declared]], Distinct w := by decide
  have hcame : CameUpAt before ctor.appearance 2 := by
    refine ⟨by decide, by decide, fun m hm => ?_⟩
    by_contra hlt
    have hearly : m = 0 ∨ m = 1 := by omega
    rcases hearly with rfl | rfl <;> revert hm <;> decide
  have hshown : ctor ∈ shownAfter before :=
    ((shownAfter_provenance before (by decide)).2.1 ctor).mpr ⟨2, _, hcame, rfl, by decide⟩
  obtain ⟨hstays, hchanges⟩ :=
    (shownAfter_provenance _ hws).2.2 before [[declared]] rfl ctor hshown (by decide)
  exact ⟨hws, hcame, hstays, (hchanges [] [declared] [] rfl).1⟩

end Delta

end Highlighting
