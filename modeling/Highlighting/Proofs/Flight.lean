/-
One pass at a time.

Passes run inside the callbacks of other passes, to any depth, and every one that
finds a free gate enters it.  The journal tells of each entry and of each exit, so
"at most one pass is in the gate" is a statement about the journal: along it entries
and exits of one slot alternate.  An action gives back the gates it found, unless a
session is broken off as a whole, and the gate says at every moment what the journal
says.
-/
import Highlighting.Proofs.Editor.Compose
import Highlighting.Proofs.Reinstall
import Mathlib

namespace Highlighting

open Act EditorM

/-! ### Entries and exits -/

/-- Whether with an event a pass enters the gate of a slot. -/
def Event.enters (n : Nat) : Event → Bool
  | entered id => id = n
  | _ => false

/-- Whether with an event a pass leaves the gate of a slot: it ended there, or a panic left it. -/
def Event.leaves (n : Nat) : Event → Bool
  | ended slot _ o => slot = some n ∧ o ≠ .dropped
  | unwound id _ => id = n
  | _ => false

theorem Event.not_enters_of_leaves {ev : Event} {n : Nat} (h : ev.leaves n = true) (k : Nat) :
    ev.enters k = false := by
  cases ev with
  | ended | unwound => rfl
  | _ => cases h

/-- Only events of passes tell of gates. -/
theorem Event.of_not_isReckoned {ev : Event} (h : ev.isReckoned = false) (n : Nat) :
    ev.enters n = false ∧ ev.leaves n = false := by
  cases ev with
  | entered | ended | unwound | answered => cases h
  | _ => exact ⟨rfl, rfl⟩

/-- How many passes entered the gate of a slot. -/
def entries (n : Nat) (evs : List Event) : Nat := evs.countP (Event.enters n)

/-- How many passes left the gate of a slot. -/
def exits (n : Nat) (evs : List Event) : Nat := evs.countP (Event.leaves n)

/-- Passes enter and leave a gate in turn; `b` and the last argument say whether one is in before
and after.  The events are latest first. -/
inductive Alternates (n : Nat) (b : Bool) : List Event → Bool → Prop where
  | start : Alternates n b [] b
  | other {b' : Bool} {evs : List Event} {ev : Event} (h : Alternates n b evs b')
      (henters : ev.enters n = false) (hleaves : ev.leaves n = false) :
      Alternates n b (ev :: evs) b'
  | enter {evs : List Event} (h : Alternates n b evs false) :
      Alternates n b (.entered n :: evs) true
  | leave {evs : List Event} {ev : Event} (h : Alternates n b evs true)
      (hleaves : ev.leaves n = true) : Alternates n b (ev :: evs) false

namespace Alternates

variable {n : Nat} {b b' b'' : Bool} {evs evs' : List Event}

theorem trans (h : Alternates n b evs b') (h' : Alternates n b' evs' b'') :
    Alternates n b (evs' ++ evs) b'' := by
  induction h' with
  | start => exact h
  | other _ henters hleaves ih => exact ih.other henters hleaves
  | enter _ ih => exact ih.enter
  | leave _ hleaves ih => exact ih.leave hleaves

/-- Nothing is told of the gate. -/
theorem of_others (h : ∀ ev ∈ evs, ev.enters n = false ∧ ev.leaves n = false) :
    Alternates n b evs b := by
  induction evs with
  | nil => exact .start
  | cons ev rest ih =>
      rw [List.forall_mem_cons] at h
      exact (ih h.2).other h.1.1 h.1.2

/-- What was told up to some moment alternates as well. -/
theorem suffix (h : Alternates n b evs b') (hs : evs' <:+ evs) :
    ∃ b'', Alternates n b evs' b'' := by
  induction h with
  | start =>
      rw [List.suffix_nil.mp hs]
      exact ⟨b, .start⟩
  | other h henters hleaves ih =>
      rcases List.suffix_cons_iff.mp hs with rfl | hs
      · exact ⟨_, h.other henters hleaves⟩
      · exact ih hs
  | enter h ih =>
      rcases List.suffix_cons_iff.mp hs with rfl | hs
      · exact ⟨_, h.enter⟩
      · exact ih hs
  | leave h hleaves ih =>
      rcases List.suffix_cons_iff.mp hs with rfl | hs
      · exact ⟨_, h.leave hleaves⟩
      · exact ih hs

/-- A pass is in after as many exits as entries and one entry more. -/
theorem count (h : Alternates n b evs b') :
    entries n evs + b.toNat = exits n evs + b'.toNat := by
  unfold entries exits
  induction h with
  | start => rfl
  | other _ henters hleaves ih =>
      rw [List.countP_cons_of_neg (by simp [henters]), List.countP_cons_of_neg (by simp [hleaves])]
      exact ih
  | enter _ ih =>
      rw [List.countP_cons_of_pos (by simp [Event.enters]),
        List.countP_cons_of_neg (by simp [Event.leaves])]
      simp at ih ⊢
      omega
  | @leave evs ev _ hleaves ih =>
      rw [List.countP_cons_of_neg (by simp [Event.not_enters_of_leaves hleaves]),
        List.countP_cons_of_pos hleaves]
      simp at ih ⊢
      omega

end Alternates

/-! ### Gates and the journal -/

/-- What happened from `e` to `e'` to the gates is what the journal tells. -/
def Passage (e e' : Editor) : Prop :=
  ∃ evs, e'.journal = evs ++ e.journal ∧ ∀ n, Alternates n (e.isBusy n) evs (e'.isBusy n)

theorem Passage.trans {e e' e'' : Editor} (h : Passage e e') (h' : Passage e' e'') :
    Passage e e'' := by
  obtain ⟨evs, hj, halt⟩ := h
  obtain ⟨evs', hj', halt'⟩ := h'
  refine ⟨evs' ++ evs, ?_, fun n => (halt n).trans (halt' n)⟩
  rw [hj', hj, List.append_assoc]

theorem Passage.refl (e : Editor) : Passage e e := ⟨[], rfl, fun _ => .start⟩

theorem Aside.passage {e e' : Editor} (h : Aside e e') : Passage e e' := by
  obtain ⟨evs, hj, hevs⟩ := h.journal
  refine ⟨evs, hj, fun n => ?_⟩
  rw [h.busy n]
  exact .of_others fun ev hev => Event.of_not_isReckoned (hevs ev hev) n

/-- What ends an action without ending the session: it returns, or a panic leaves it. -/
def GoesOn {α : Type} (result : Except Halt α) : Prop :=
  ∀ h, result = .error h → ∃ p, h = .panic p

theorem goesOn_ok {α : Type} (a : α) : GoesOn (.ok a) := by
  intro h hok
  cases hok

theorem goesOn_error {α : Type} {h : Halt} :
    GoesOn (.error h : Except Halt α) ↔ ∃ p, h = .panic p := by
  constructor
  · intro hgo
    exact hgo h rfl
  · intro hpanic h' heq
    cases heq
    exact hpanic

theorem goesOn_panic {α : Type} (p : Payload) : GoesOn (.error (.panic p) : Except Halt α) :=
  goesOn_error.mpr ⟨p, rfl⟩

/-- What breaks off one action breaks off another one in the same way. -/
theorem GoesOn.of_error {α β : Type} {h : Halt} (hgo : GoesOn (.error h : Except Halt α)) :
    GoesOn (.error h : Except Halt β) :=
  goesOn_error.mpr (goesOn_error.mp hgo)

/-- The action leaves the gates as it found them, and the journal tells of all that happens to them
meanwhile. -/
def Restores (α : Type) (x : EditorM α) : Prop :=
  ∀ e, Ensures x e (Passage e) fun result e' =>
    (∀ n, e'.isBusy n = e.isBusy n) ∧ (GoesOn result → Passage e e')

theorem restores_aside {α : Type} {x : EditorM α}
    (h : ∀ e, Ensures x e (fun _ => False) fun _ e' => Aside e e') : Restores α x := fun e =>
  (h e).mono (fun _ hm => hm.elim) fun _ _ haside => ⟨haside.busy, fun _ => haside.passage⟩

/-- An action goes on where another one gave the gates back. -/
theorem Restores.after {α : Type} {x : EditorM α} (hx : Restores α x) {e e' : Editor}
    (hbusy : ∀ n, e'.isBusy n = e.isBusy n) (hfirst : Passage e e') :
    Ensures x e' (Passage e) fun result e'' =>
      (∀ n, e''.isBusy n = e.isBusy n) ∧ (GoesOn result → Passage e e'') :=
  (hx e').mono (fun _ hm => hfirst.trans hm) fun _ _ h =>
    ⟨fun n => (h.1 n).trans (hbusy n), fun hgo => hfirst.trans (h.2 hgo)⟩

/-- **Giving back the gates goes through the text of actions.** -/
theorem composes_restores : Composes Restores where
  calm h := h.aside
  pure a := restores_aside fun e => by simp [aside_of_same]
  halt h := restores_aside fun e => by simp [aside_of_same]
  look e := by
    rw [ensures_look]
    exact ⟨.refl e, fun _ => rfl, fun _ => .refl e⟩
  get := restores_aside fun e => by simp [aside_of_same]
  modify hf := restores_aside fun e => by simpa using hf e
  modifyGet hf := restores_aside fun e => by simpa using hf e
  bind {_ _ x k} hx hk e := by
    rw [ensures_bind]
    refine (hx e).mono (fun _ hm => hm) ?_
    rintro (halted | a) e' ⟨hbusy, hpassage⟩
    · exact ⟨hbusy, fun hgo => hpassage hgo.of_error⟩
    · exact (hk a).after hbusy (hpassage (goesOn_ok a))
  ensuring {_ _ f} hx hf e := by
    rw [ensures_ensuring]
    refine (hx e).mono (fun _ hm => hm) fun _ e' h => ⟨fun n => ?_, fun hgo => ?_⟩
    · exact ((hf e').busy n).trans (h.1 n)
    · exact (h.2 hgo).trans (hf e').passage
  catching {_ x} hx e := by
    rw [ensures_catching]
    refine (hx e).mono (fun _ hm => hm) ?_
    rintro ((p | h | _) | a) e' ⟨hbusy, hpassage⟩
    · exact ⟨hbusy, fun _ => hpassage (goesOn_panic p)⟩
    · exact ⟨hbusy, fun hgo => hpassage hgo.of_error⟩
    · exact ⟨hbusy, fun hgo => hpassage hgo.of_error⟩
    · exact ⟨hbusy, fun _ => hpassage (goesOn_ok a)⟩
  attempt {_ _ _ k f} hx hok hf herror e := by
    rw [ensures_bind, ensures_attempt]
    refine (hx e).mono (fun _ hm => hm) ?_
    rintro (halted | a) e' ⟨hbusy, hpassage⟩
    · rw [next_ok, herror, ensures_bind, ensures_modify, next_ok, ensures_halt]
      refine ⟨fun n => ((hf e').busy n).trans (hbusy n), fun hgo => ?_⟩
      exact (hpassage hgo.of_error).trans (hf e').passage
    · rw [next_ok]
      exact (hok a).after hbusy (hpassage (goesOn_ok a))

/-! ### Passes -/

section Pass

variable {e : Editor} {id : Nat} {s : Slot} {run : Script → EditorM Unit}

theorem isBusy_of_slot (hs : e.slots[id]? = some s) : e.isBusy id = s.gate.busy := by
  rw [Editor.isBusy, hs]
  rfl

theorem isBusy_enterGate (hs : e.slots[id]? = some s) (n : Nat) :
    (e.enterGate id s.entered.gate).isBusy n = if id = n then true else e.isBusy n := by
  show ((e.modifySlot id _).slots[n]?.map _).getD false = _
  rw [Editor.getElem?_modifySlot]
  by_cases hn : id = n
  · subst hn
    rw [if_pos rfl, if_pos rfl, hs]
    rfl
  · rw [if_neg hn, if_neg hn]
    rfl

theorem isBusy_leaveGate (e : Editor) (id n : Nat) :
    (e.leaveGate id).isBusy n = if id = n then false else e.isBusy n := by
  show ((e.modifySlot id _).slots[n]?.map _).getD false = _
  rw [Editor.getElem?_modifySlot]
  by_cases hn : id = n
  · rw [if_pos hn, if_pos hn]
    cases e.slots[n]? <;> rfl
  · rw [if_neg hn, if_neg hn]
    rfl

/-- A pass enters a free gate. -/
theorem passage_enterGate (hs : e.slots[id]? = some s) (hfree : s.gate.busy = false) :
    Passage e (e.enterGate id s.entered.gate) := by
  refine ⟨[.entered id], rfl, fun n => ?_⟩
  rw [isBusy_enterGate hs]
  by_cases hn : id = n
  · subst hn
    rw [if_pos rfl, isBusy_of_slot hs, hfree]
    exact .enter .start
  · rw [if_neg hn]
    exact .of_others (by simp [Event.enters, Event.leaves, hn])

/-- The pass in a gate leaves it, and what is told says so. -/
theorem passage_leaveGate (hbusy : e.isBusy id = true) (ev : Event) (hleaves : ev.leaves id = true)
    (hothers : ∀ n, id ≠ n → ev.enters n = false ∧ ev.leaves n = false) {e' : Editor}
    (hslots : e'.slots = (e.leaveGate id).slots) (hj : e'.journal = ev :: e.journal) :
    Passage e e' := by
  refine ⟨[ev], hj, fun n => ?_⟩
  have hbusy' : e'.isBusy n = if id = n then false else e.isBusy n := by
    rw [← isBusy_leaveGate, Editor.isBusy, hslots, Editor.isBusy]
  rw [hbusy']
  by_cases hn : id = n
  · subst hn
    rw [if_pos rfl, hbusy]
    exact .leave .start hleaves
  · rw [if_neg hn]
    exact .of_others (by simpa using hothers n hn)

/-- **A pass gives back the gate it entered.** -/
theorem reconcile_restores (hrun : ∀ script, Restores Unit (run script)) (r : Request) :
    Restores Outcome (reconcile run r) := by
  intro e
  unfold Ensures
  rcases hslot : e.slot? r.doc with _ | ⟨id, s⟩
  · rw [reconcile_of_none hslot]
    refine ⟨by simp, fun _ => rfl, fun _ => ⟨[.ended none r .notInstalled], rfl, fun n => ?_⟩⟩
    exact .of_others (by simp [Event.enters, Event.leaves])
  obtain ⟨-, hs⟩ := Editor.slot?_eq_some.mp hslot
  cases hgate : s.gate.busy with
  | true =>
      rw [reconcile_of_busy hslot hgate]
      refine ⟨by simp, fun _ => rfl, fun _ => ⟨[.ended (some id) r .dropped], rfl, fun n => ?_⟩⟩
      exact .of_others (by simp [Event.enters, Event.leaves])
  | false =>
      have hdropped : (reconcile run r e).result ≠ .ok .dropped := by
        rw [Ne, reconcile_dropped_iff hslot, hgate]
        exact Bool.false_ne_true
      rw [reconcile_of_free hslot hgate] at hdropped ⊢
      rw [result_closePass] at hdropped
      obtain ⟨hseen, hback, hpassage⟩ :=
        composes_restores.passInside hrun id s r (e.enterGate id s.entered.gate)
      have henter := passage_enterGate hs hgate
      generalize passInside run id s r (e.enterGate id s.entered.gate) = inside
        at hseen hback hpassage hdropped ⊢
      have hin : inside.last.isBusy id = true := by rw [hback, isBusy_enterGate hs, if_pos rfl]
      have hout : ∀ n, (inside.last.leaveGate id).isBusy n = e.isBusy n := by
        intro n
        rw [isBusy_leaveGate]
        by_cases hn : id = n
        · subst hn
          rw [if_pos rfl, isBusy_of_slot hs, hgate]
        · rw [if_neg hn, hback, isBusy_enterGate hs, if_neg hn]
      refine ⟨fun m hm => ?_, ?_⟩
      · rw [seen_closePass] at hm
        exact henter.trans (hseen m hm)
      · rcases inside with ⟨seen, (p | _ | _) | o, e'⟩
        · refine ⟨hout, fun _ => (henter.trans (hpassage (goesOn_panic p))).trans ?_⟩
          exact passage_leaveGate hin (.unwound id r) (by simp [Event.leaves])
            (by simp [Event.enters, Event.leaves]) rfl rfl
        · exact ⟨hout, fun hgo => absurd (goesOn_error.mp hgo) (by simp)⟩
        · exact ⟨hout, fun hgo => absurd (goesOn_error.mp hgo) (by simp)⟩
        · have ho : o ≠ .dropped := fun heq => hdropped (congrArg _ heq)
          refine ⟨hout, fun _ => (henter.trans (hpassage (goesOn_ok o))).trans ?_⟩
          exact passage_leaveGate hin (.ended (some id) r o) (by simp [Event.leaves, ho])
            (by simp [Event.enters, Event.leaves, ho]) rfl rfl

/-- A pass that finds a free gate is in it all along, and out of it in the end. -/
theorem reconcile_holds (hrun : ∀ script, Restores Unit (run script)) (hruns : Commanding run)
    (hfit : Fit e) {r : Request} (hslot : e.slot? r.doc = some (id, s))
    (hfree : s.gate.busy = false) :
    let course := reconcile run r e
    (∀ m ∈ course.seen, m.isBusy id = true) ∧ course.last.isBusy id = false ∧
      (∀ o, course.result = .ok o → ∃ evs,
        course.last.journal = .ended (some id) r o :: evs ++ .entered id :: e.journal) ∧
      ∀ p, course.result = .error (.panic p) → ∃ evs,
        course.last.journal = .unwound id r :: evs ++ .entered id :: e.journal := by
  intro course
  obtain ⟨-, hs⟩ := Editor.slot?_eq_some.mp hslot
  have hentered := enterGate_slot hs
  have hfit' : Fit (e.enterGate id s.entered.gate) := (Step.enter hs hfree).fit hfit
  have hclosed : course = closePass id r (passInside run id s r (e.enterGate id s.entered.gate)) :=
    reconcile_of_free hslot hfree
  refine ⟨fun m hm => ?_, ?_, ?_⟩
  · rw [hclosed, seen_closePass] at hm
    have hmoment := (passInside_spec hruns hfit' hentered rfl r).1 m hm
    exact isBusy_of_slot (hmoment.inside hfit' hentered rfl).2
  · exact ((reconcile_restores hrun r e).2.1 id).trans ((isBusy_of_slot hs).trans hfree)
  · obtain ⟨-, -, hpassage⟩ :=
      composes_restores.passInside hrun id s r (e.enterGate id s.entered.gate)
    rw [hclosed]
    generalize passInside run id s r (e.enterGate id s.entered.gate) = inside at hpassage ⊢
    rw [result_closePass]
    rcases inside with ⟨seen, (p | _ | _) | o, e'⟩
    · obtain ⟨evs, hj, -⟩ := hpassage (goesOn_panic p)
      refine ⟨by simp, fun _ _ => ⟨evs, ?_⟩⟩
      exact congrArg (Event.unwound id r :: ·) hj
    · exact ⟨by simp, by simp⟩
    · exact ⟨by simp, by simp⟩
    · obtain ⟨evs, hj, -⟩ := hpassage (goesOn_ok o)
      refine ⟨fun o' ho => ⟨evs, ?_⟩, by simp⟩
      cases ho
      exact congrArg (Event.ended (some id) r o :: ·) hj

end Pass

/-! ### Sessions -/

theorem execute_restores (fuel : Nat) : ∀ script, Restores Unit (execute fuel script) := by
  refine composes_restores.execute (fun run hrun fuel c => ?_) fuel
  have hcommand := composes_restores.performWith hrun fuel c fun _ _ _ _ => reconcile_restores hrun
  refine composes_restores.bind hcommand fun answer e => ?_
  rw [log, ensures_modify]
  refine ⟨fun _ => rfl, fun _ => ⟨[.answered c.name answer], rfl, fun n => .of_others ?_⟩⟩
  simp [Event.enters, Event.leaves]

theorem perform_restores (fuel : Nat) (c : Command) : Restores Answer (perform fuel c) :=
  composes_restores.performWith (execute_restores fuel) fuel c fun _ _ _ _ =>
    reconcile_restores (execute_restores fuel)

/-- Between the commands of a session the gates are as at its beginning. -/
theorem converse_restores {fuel : Nat} {script : Script} {e last : Editor}
    {log : List (Answer × List Event)} (h : e.converse fuel script = (.ok log, last)) :
    (∀ n, last.isBusy n = e.isBusy n) ∧ Passage e last := by
  induction script generalizing e log with
  | nil =>
      cases h
      exact ⟨fun _ => rfl, .refl _⟩
  | cons c rest ih =>
      obtain ⟨answer, log', hanswer, hrest, -⟩ := Editor.converse_ok_cons h
      obtain ⟨-, hbusy, hpassage⟩ := perform_restores fuel c e
      obtain ⟨hbusy', hpassage'⟩ := ih hrest
      rw [hanswer] at hpassage
      exact ⟨fun n => (hbusy' n).trans (hbusy n), (hpassage (goesOn_ok answer)).trans hpassage'⟩

/-- At every moment of a session each gate is as the journal tells. -/
theorem alternates_of_moment {policy : Policy} {table : StyleTable} {thread : Bool} {fuel : Nat}
    {script : Script} {log : List (Answer × List Event)} {e m : Editor}
    (hrun : (Editor.new policy table thread).converse fuel script = (.ok log, e))
    (hm : Editor.Moment fuel e m) (n : Nat) : Alternates n false m.journal (m.isBusy n) := by
  obtain ⟨-, hpassage⟩ := converse_restores hrun
  have hmoment : Passage (Editor.new policy table thread) m := by
    rcases hm with rfl | ⟨c, hm⟩
    · exact hpassage
    · exact hpassage.trans ((perform_restores fuel c e).1 m hm)
  obtain ⟨evs, hj, halternates⟩ := hmoment
  rw [hj, show (Editor.new policy table thread).journal = [] from rfl, List.append_nil]
  exact halternates n

/-- What `state` reads off the slots is what the journal says. -/
theorem running_eq {e : Editor} (hfit : Fit e)
    (halternates : ∀ n, Alternates n false e.journal (e.isBusy n)) (doc : DocumentId) :
    ((e.slot? doc).map fun s => s.2.gate.busy) = (e.documents.get? doc).map fun n =>
      decide (entries n e.journal = exits n e.journal + 1) := by
  cases hget : e.documents.get? doc with
  | none =>
      rw [Editor.slot?, hget]
      rfl
  | some n =>
      obtain ⟨t, ht, -⟩ := hfit.installed doc n hget
      rw [Editor.targets, List.getElem?_map] at ht
      obtain ⟨s, hs, -⟩ := Option.map_eq_some_iff.mp ht
      have hcount := (halternates n).count
      rw [isBusy_of_slot hs] at hcount
      rw [Editor.slot?_eq_some.mpr ⟨hget, hs⟩]
      simp only [Option.map_some, Option.some.injEq]
      cases hbusy : s.gate.busy <;> simp [hbusy] at hcount ⊢ <;> omega

/-- **Single flight.**  At every moment of every session, however deep inside the callbacks of
passes:

- Along the journal, entries into the gate of a slot and exits from it alternate, so at most one
  pass is in.  Between commands every pass that entered has left.
- A document that is installed is running exactly if a pass has entered the gate of its slot and has
  not left it yet; so it is idle once every pass has left, with an outcome or by a panic.
- A pass that finds its gate taken is dropped: nobody is called, and nothing changes but the count
  of dropped passes.
- A pass that finds its gate free has it until it ends, and leaves it then. -/
theorem single_flight {policy : Policy} {table : StyleTable} {thread : Bool} {fuel : Nat}
    {script : Script} {log : List (Answer × List Event)} {e m : Editor}
    (hrun : (Editor.new policy table thread).converse fuel script = (.ok log, e))
    (hm : Editor.Moment fuel e m) :
    (∀ n past, past <:+ m.journal →
      exits n past ≤ entries n past ∧ entries n past ≤ exits n past + 1) ∧
    (∀ n, entries n e.journal = exits n e.journal) ∧
    (∀ doc, m.coordinating = true → (perform fuel (.state doc) m).result = .ok (.running
      ((m.documents.get? doc).map fun n =>
        decide (entries n m.journal = exits n m.journal + 1)))) ∧
    ((∀ n, entries n m.journal = exits n m.journal) →
      ∀ doc n s, m.slot? doc = some (n, s) → s.gate.busy = false) ∧
    ∀ r n s, m.slot? r.doc = some (n, s) →
      let course := reconcile (execute fuel) r m
      (s.gate.busy = true → course = ⟨[], .ok .dropped, { m with
        metrics := { m.metrics with counters := { m.metrics.counters with
          dropped := m.metrics.counters.dropped + 1 } }
        journal := .ended (some n) r .dropped :: m.journal }⟩) ∧
      (s.gate.busy = false → (∀ m' ∈ course.seen, m'.isBusy n = true) ∧
        course.last.isBusy n = false ∧
        (∀ o, course.result = .ok o → ∃ evs,
          course.last.journal = .ended (some n) r o :: evs ++ .entered n :: m.journal) ∧
        ∀ p, course.result = .error (.panic p) → ∃ evs,
          course.last.journal = .unwound n r :: evs ++ .entered n :: m.journal) := by
  have halternates := alternates_of_moment hrun hm
  have hreach : e.Reachable := by
    have hconverse := (Editor.Reachable.new policy table thread).converse fuel script
    rw [hrun] at hconverse
    exact hconverse
  have hfit : Fit m := (hreach.moment hm).fit
  refine ⟨fun n past hpast => ?_, fun n => ?_, fun doc hcoordinating => ?_, fun hended => ?_, ?_⟩
  · obtain ⟨b, hb⟩ := (halternates n).suffix hpast
    have hcount := hb.count
    have hone := b.toNat_le
    simp only [Bool.toNat_false] at hcount
    omega
  · have hcount := (alternates_of_moment hrun (.inl rfl) n).count
    rw [(converse_restores hrun).1 n] at hcount
    exact hcount
  · rw [← running_eq hfit halternates doc]
    show (coordinated _ m).result = _
    unfold coordinated
    rw [get_bind_apply, if_pos hcoordinating]
    rfl
  · intro doc n s hslot
    have hcount := (halternates n).count
    rw [hended n, isBusy_of_slot (Editor.slot?_eq_some.mp hslot).2] at hcount
    cases hbusy : s.gate.busy with
    | false => rfl
    | true => simp [hbusy] at hcount
  · intro r n s hslot course
    refine ⟨fun hbusy => reconcile_of_busy hslot hbusy, fun hfree => ?_⟩
    exact reconcile_holds (execute_restores fuel) (execute_commanding fuel) hfit hslot hfree

open OneNumber in
/-- The surface, asked by a pass, runs another one on the same document, which is dropped. -/
theorem single_flight_nested :
    let e := installed [[.reconcile ⟨1⟩ tree none, .dispose "view"]]
    let seen := (perform 1 (.reconcile ⟨1⟩ tree (some "token")) e).seen
    seen.length = 3 ∧ ∀ m ∈ seen, m.slot? ⟨1⟩ = some (0, slot.entered) ∧
      entries 0 m.journal = 1 ∧ exits 0 m.journal = 0 ∧
      (perform 1 (.state ⟨1⟩) m).result = .ok (.running (some true)) ∧
      (reconcile (execute 1) request m).result = .ok .dropped := by
  intro e seen
  let glance := fun m : Editor =>
    (m.slot? ⟨1⟩, m.coordinating, m.documents.get? ⟨1⟩, entries 0 m.journal, exits 0 m.journal)
  have hseen : seen.map glance = List.replicate 3 (some (0, slot.entered), true, some 0, 1, 0) := by
    unfold seen e
    simp only [perform, performWith, reconcileAnswer, reconcile, passInside, wantedHighlights,
      Policy.classifyTree_eq_auction]
    cbv
  refine ⟨?_, fun m hm => ?_⟩
  · simpa using congrArg List.length hseen
  · have hglance : glance m = (some (0, slot.entered), true, some 0, 1, 0) :=
      List.eq_of_mem_replicate (hseen ▸ List.mem_map_of_mem hm)
    simp only [glance, Prod.mk.injEq] at hglance
    obtain ⟨hslot, hcoordinating, hget, hentries, hexits⟩ := hglance
    have hrun : (Editor.new .default .default false).converse 1
        [.surface "view" [[.reconcile ⟨1⟩ tree none, .dispose "view"]] [] false,
          .install ⟨1⟩ "view" (.table []) false [], .token "token" none] =
        (.ok [(.done, []), (.done, []), (.done, [])], e) := rfl
    obtain ⟨-, -, hstate, -, hpass⟩ := single_flight hrun (.inr ⟨_, hm⟩)
    refine ⟨hslot, hentries, hexits, ?_, ?_⟩
    · rw [hstate ⟨1⟩ hcoordinating, hget]
      simp [hentries, hexits]
    · rw [(hpass request 0 slot.entered hslot).1 rfl]

end Highlighting
