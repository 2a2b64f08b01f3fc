/-
What a list of records leaves in the metrics.

Two things are made of the same records.  The counters take each record for what kind it
is and add up, so the order of the records does not matter to them.  The average takes
only the records of passes that ran to their end, and it does matter in which order they
come; the records between them leave no trace.  Nothing is used of the arithmetic of the
average, which goes in as it is.
-/
import Highlighting.Proofs.Metrics
import Mathlib

namespace Highlighting

/-! ### Counters -/

namespace Counters

theorem ext_of {c c' : Counters} (hof : ∀ o, c.of o = c'.of o) (hadded : c.added = c'.added)
    (hremoved : c.removed = c'.removed) : c = c' := by
  have hpublished := hof (.published 0 0)
  have hunchanged := hof .unchanged
  have hdropped := hof .dropped
  have hcancelled := hof (.cancelled .classified)
  have hfailed := hof (.failed (.diffPanicked ""))
  have hnotInstalled := hof .notInstalled
  have htargetGone := hof .targetGone
  cases c
  cases c'
  simp_all [of]

/-- The order of outcomes does not matter. -/
theorem after_perm (c : Counters) {os os' : List Outcome} (h : os.Perm os') :
    c.after os = c.after os' := by
  refine ext_of (fun o => ?_) ?_ ?_
  · rw [of_after, of_after, h.countP_eq]
  · rw [added_after, added_after, (h.map _).sum_eq]
  · rw [removed_after, removed_after, (h.map _).sum_eq]

end Counters

/-! ### Records -/

/-- A pass that ended, and how long it took. -/
abbrev Record := Outcome × Duration

namespace Record

def isPublished (r : Record) : Bool := r.1.isLike (.published 0 0)

/-- The pass published a change or found nothing to change. -/
def isFinished (r : Record) : Bool := r.isPublished || r.1.isLike .unchanged

theorem isFinished_eq_isSuccess (r : Record) : r.isFinished = r.1.isSuccess := by
  obtain ⟨o, d⟩ := r
  cases o <;> rfl

end Record

namespace Metrics

/-- The metrics after some more records, in order. -/
def recordAll (m : Metrics) (rs : List Record) : Metrics :=
  rs.foldl (fun m r => m.record r.1 r.2) m

theorem counters_recordAll (m : Metrics) (rs : List Record) :
    (m.recordAll rs).counters = m.counters.after (rs.map (·.1)).reverse := by
  induction rs generalizing m with
  | nil => rfl
  | cons r rs ih =>
      rw [List.map_cons, List.reverse_cons, Counters.after_append]
      exact ih (m.record r.1 r.2)

theorem passMillis_record (m : Metrics) (r : Record) :
    (m.record r.1 r.2).passMillis =
      if r.isFinished then some (smooth m.passMillis r.2.toMillis) else m.passMillis := by
  rw [Record.isFinished_eq_isSuccess]
  rfl

/-- The average goes through the durations of the passes that finished. -/
theorem passMillis_recordAll (m : Metrics) (rs : List Record) :
    (m.recordAll rs).passMillis = (rs.filter Record.isFinished).foldl
      (fun average r => some (smooth average r.2.toMillis)) m.passMillis := by
  induction rs generalizing m with
  | nil => rfl
  | cons r rs ih =>
      have hrest : (m.recordAll (r :: rs)).passMillis = _ := ih (m.record r.1 r.2)
      rw [hrest, passMillis_record]
      cases hfinished : r.isFinished <;> simp [hfinished]

/-- There is an average exactly if a pass finished. -/
theorem passMillis_eq_none_iff (rs : List Record) :
    (empty.recordAll rs).passMillis = none ↔ rs.filter Record.isFinished = [] := by
  rw [passMillis_recordAll]
  rcases List.eq_nil_or_concat (rs.filter Record.isFinished) with hnil | ⟨before, r, hlast⟩
  · simp [hnil, empty]
  · simp [hlast]

theorem sum_change_eq (rs : List Record) : (rs.map fun r => r.1.change).sum =
    ((rs.filter Record.isPublished).map fun r => r.1.change).sum := by
  induction rs with
  | nil => rfl
  | cons r rs ih =>
      rw [List.map_cons, List.sum_cons, ih, List.filter_cons]
      split
      · rfl
      · rename_i hother
        obtain ⟨o, d⟩ := r
        cases o with
        | published => exact absurd rfl hother
        | _ => exact zero_add _

/-- **Passes that were broken off leave no trace in the average, and counters ignore order.**  After
any list of records, the average is what the records of published and unchanged passes make of it on
their own: there is none if there are none of these, and lists with the same ones have the same
average, whatever else is in them and wherever.  Each counter is the number of records of its kind,
and what was added and removed is what the published ones say, modulo the range of counters; so
counters are the same in whatever order the records come. -/
theorem average_and_counters (rs : List Record) :
    let m := empty.recordAll rs
    let finished := rs.filter Record.isFinished
    let changed := ((rs.filter Record.isPublished).map fun r => r.1.change).sum
    m.passMillis = (empty.recordAll finished).passMillis ∧
    (m.passMillis = none ↔ finished = []) ∧
    (∀ rs', rs'.filter Record.isFinished = finished →
      (empty.recordAll rs').passMillis = m.passMillis ∧
        (empty.recordAll rs').averagePass = m.averagePass) ∧
    (∀ rs', rs.Perm rs' → (empty.recordAll rs').counters = m.counters) ∧
    (∀ o, (m.counters.of o).toNat = rs.countP (·.1.isLike o) % UInt64.size) ∧
    m.counters.added.toNat = changed.1 % UInt64.size ∧
    m.counters.removed.toNat = changed.2 % UInt64.size := by
  intro m finished changed
  have hcounters : m.counters = Counters.after {} (rs.map (·.1)).reverse := counters_recordAll _ rs
  have hsame : ∀ rs' : List Record, rs'.filter Record.isFinished = finished →
      (empty.recordAll rs').passMillis = m.passMillis := by
    intro rs' h
    rw [passMillis_recordAll, h, passMillis_recordAll]
  have hchanged : ((rs.map (·.1)).reverse.map Outcome.change).sum = changed := by
    rw [((List.reverse_perm _).map _).sum_eq, List.map_map]
    exact sum_change_eq rs
  refine ⟨?_, passMillis_eq_none_iff rs, fun rs' h => ⟨hsame rs' h, ?_⟩, fun rs' h => ?_,
    fun o => ?_, ?_, ?_⟩
  · refine (hsame finished ?_).symm
    exact List.filter_filter.trans (by simp [finished])
  · rw [averagePass, averagePass, hsame rs' h]
  · rw [hcounters, counters_recordAll]
    refine Counters.after_perm _ ((List.reverse_perm _).trans ?_)
    exact (h.symm.map _).trans (List.reverse_perm _).symm
  · have hzero : ({} : Counters).of o = 0 := by cases o <;> rfl
    rw [hcounters, Counters.of_after, hzero, zero_add, List.countP_reverse, List.countP_map,
      UInt64.toNat_ofNat']
    rfl
  · rw [hcounters, Counters.added_after, hchanged]
    simp
  · rw [hcounters, Counters.removed_after, hchanged]
    simp

end Metrics

end Highlighting
