/-
How a pass ends, decided by what it meets.

Several things can go wrong with one pass at once: a resolver panics while the
token is cancelled already, a surface that is asked uninstalls the document and
then says the view is gone.  A pass has one outcome, and which one is a matter of
how far it gets.  The stages below follow a pass from its gate to its end, and
`Decided` lists the outcomes, each with the stage that is reached and with what is
met there.
-/
import Highlighting.Proofs.Editor.Fuel
import Highlighting.Proofs.Screen
import Mathlib

namespace Highlighting

open Act

/-! ### Stages of a pass -/

/-- A pass has compared what is shown with what is wanted. -/
def Editor.compared (e : Editor) (t : Token) : Editor :=
  ((e.worked t unitsClassify).worked t unitsSnapshot).worked t unitsDiff

/-- The change that takes the highlights of a slot to those a pass found. -/
def Slot.deltaTo (s : Slot) (wanted : List Highlight) : Delta := .between s.gate.value wanted

/-- The slot after that change, its gate being free. -/
def Slot.shifted (s : Slot) (wanted : List Highlight) : Slot :=
  let next := (s.deltaTo wanted).apply s.gate.value
  { s with gate := ⟨next, false⟩, snapshot := next }

/-- Whether a pass with this outcome has a change to queue. -/
def Outcome.isChange : Outcome → Bool
  | published _ _ => true
  | _ => false

section Stages

variable (run : Script → EditorM Unit) (e : Editor) (r : Request) (id : Nat) (s : Slot)
  (wanted : List Highlight)

/-- A pass that just entered the gate classifies its tree, asking the resolver for every style. -/
def classifying : Course Editor Halt (List Highlight) :=
  wantedHighlights run s.resolver r.tree
    ((e.enterGate id s.entered.gate).worked r.token unitsBegin)

/-- A pass that compared asks the surface whether the view is there. -/
def asking : Course Editor Halt Bool :=
  askSurface run s.target.surface s.target.doc ((classifying run e r id s).last.compared r.token)

/-- Asked for the styles of some kinds, one after the other, a resolver panics at one of them. -/
inductive Panics (resolver : Nat) (p : Payload) : List Kind → Editor → Prop where
  | here {kind : Kind} {rest : List Kind} {e : Editor}
      (h : (resolveStyle run resolver kind e).result = .error (.panic p)) :
      Panics resolver p (kind :: rest) e
  | later {kind : Kind} {rest : List Kind} {e : Editor} {style : Style}
      (h : (resolveStyle run resolver kind e).result = .ok style)
      (hrest : Panics resolver p rest (resolveStyle run resolver kind e).last) :
      Panics resolver p (kind :: rest) e

/-- The kinds a pass asks its resolver for. -/
def Editor.kindsOf (e : Editor) (tree : SyntaxTree) : List Kind :=
  (e.policy.classifyTree tree).marks.map (·.kind)

/-- The pass found its document, and no other pass in the gate. -/
structure Enters : Prop where
  slot : e.slot? r.doc = some (id, s)
  free : s.gate.busy = false

/-- All styles were found, and the pass goes on. -/
structure Compares : Prop extends Enters e r id s where
  styled : (classifying run e r id s).result = .ok wanted
  on : (classifying run e r id s).last.isInterrupted r.token s.target = false

/-- The surface says that the view is there, and the pass goes on to its end. -/
structure Finishes : Prop extends Compares run e r id s wanted where
  live : (asking run e r id s).result = .ok true
  through : (asking run e r id s).last.isInterrupted r.token s.target = false

end Stages

/-- The outcomes of a pass, the earlier ones first. -/
inductive Decided (run : Script → EditorM Unit) (e : Editor) (r : Request) : Outcome → Prop where
  | notInstalled (h : e.documents.get? r.doc = none) : Decided run e r .notInstalled
  | dropped {id : Nat} {s : Slot} (hslot : e.slot? r.doc = some (id, s))
      (hbusy : s.gate.busy = true) : Decided run e r .dropped
  | failed {id : Nat} {s : Slot} {p : Payload} (h : Enters e r id s)
      (hpanic : Panics run s.resolver p (e.kindsOf r.tree)
        ((e.enterGate id s.entered.gate).worked r.token unitsBegin)) :
      Decided run e r (.failed (.classifierPanicked p.message))
  | classified {id : Nat} {s : Slot} {wanted : List Highlight} (h : Enters e r id s)
      (hstyled : (classifying run e r id s).result = .ok wanted)
      (hstop : (classifying run e r id s).last.isInterrupted r.token s.target = true) :
      Decided run e r (.cancelled .classified)
  | targetGone {id : Nat} {s : Slot} {wanted : List Highlight} (h : Compares run e r id s wanted)
      (hgone : (asking run e r id s).result = .ok false) : Decided run e r .targetGone
  | beforeDispatch {id : Nat} {s : Slot} {wanted : List Highlight}
      (h : Compares run e r id s wanted) (hlive : (asking run e r id s).result = .ok true)
      (hstop : (asking run e r id s).last.isInterrupted r.token s.target = true) :
      Decided run e r (.cancelled .beforeDispatch)
  | unchanged {id : Nat} {s : Slot} {wanted : List Highlight} (h : Finishes run e r id s wanted)
      (hsame : wanted.map Highlight.appearance = s.gate.value.map Highlight.appearance) :
      Decided run e r .unchanged
  | published {id : Nat} {s : Slot} {wanted : List Highlight} (h : Finishes run e r id s wanted)
      (hother : wanted.map Highlight.appearance ≠ s.gate.value.map Highlight.appearance) :
      Decided run e r
        (.published (s.deltaTo wanted).add.length (s.deltaTo wanted).remove.length)

/-! ### Opening a pass -/

theorem Act.result_bind {σ ε α β : Type} (x : Act σ ε α) (f : α → Act σ ε β) (s : σ) :
    ((x >>= f) s).result = (x s).result.bind fun a => (f a (x s).last).result := by
  rcases hx : x s with ⟨seen, h | a, s'⟩
  · rw [bind_of_error hx]
    rfl
  · rw [bind_of_ok hx]
    rfl

variable {run : Script → EditorM Unit} {e : Editor}

/-- Styles marks by a resolver, one after the other. -/
def styleMarks (run : Script → EditorM Unit) (resolver : Nat) (marks : List Mark) :
    EditorM (List Highlight) :=
  marks.mapM fun m => do return m.styled (← resolveStyle run resolver m.kind)

theorem result_styleMarks_iff {resolver : Nat} {p : Payload} (marks : List Mark) :
    ∀ e : Editor, (styleMarks run resolver marks e).result = .error (.panic p) ↔
      Panics run resolver p (marks.map (·.kind)) e := by
  induction marks with
  | nil =>
      intro e
      constructor
      · intro h
        cases h
      · intro h
        cases h
  | cons m rest ih =>
      intro e
      have hcons : styleMarks run resolver (m :: rest) = do
          let style ← resolveStyle run resolver m.kind
          let styled ← styleMarks run resolver rest
          return m.styled style :: styled := by
        rw [styleMarks, List.mapM_cons, bind_assoc]
        simp only [pure_bind]
        rfl
      rw [hcons, List.map_cons, result_bind]
      cases hcall : (resolveStyle run resolver m.kind e).result with
      | error halt =>
          constructor
          · intro h
            cases h
            exact .here hcall
          · intro h
            cases h with
            | here h =>
                rw [hcall] at h
                cases h
                rfl
            | later h =>
                rw [hcall] at h
                cases h
      | ok style =>
          have hlater : Panics run resolver p (m.kind :: rest.map (·.kind)) e ↔
              Panics run resolver p (rest.map (·.kind))
                (resolveStyle run resolver m.kind e).last := by
            constructor
            · intro h
              cases h with
              | here h =>
                  rw [hcall] at h
                  cases h
              | later _ h => exact h
            · exact .later hcall
          rw [hlater, ← ih]
          change ((styleMarks run resolver rest >>= fun styled => pure (m.styled style :: styled))
            (resolveStyle run resolver m.kind e).last).result = _ ↔ _
          rw [result_bind]
          cases (styleMarks run resolver rest (resolveStyle run resolver m.kind e).last).result with
          | error halt => simp [Except.bind]
          | ok styled => simp [Except.bind]

/-- The part of a pass behind classification ends as it does when its surface is asked. -/
theorem result_reconcileWith (e : Editor) (id : Nat) (t : Target) (token : Token)
    (wanted : List Highlight) :
    (reconcileWith run id t token wanted e).result =
      if e.isInterrupted token t then .ok (.cancelled .classified)
      else
        let delta := Delta.between (e.gateValue id) wanted
        let asked := askSurface run t.surface t.doc (e.compared token)
        asked.result.bind fun live =>
          if live = false then .ok .targetGone
          else if asked.last.isInterrupted token t then .ok (.cancelled .beforeDispatch)
          else .ok (asked.last.publish id t wanted delta (delta.apply (e.gateValue id))).1 := by
  have hworked : ∀ (e : Editor) (units : UInt32),
      (e.worked token units).isInterrupted token t = e.isInterrupted token t := fun _ _ => rfl
  unfold reconcileWith EditorM.work
  rw [modify_bind_apply, get_bind_apply, hworked]
  cases hstop : e.isInterrupted token t with
  | true => rfl
  | false =>
      have hlife : (e.compared token).isTornDown t = false := (Bool.or_eq_false_iff.mp hstop).2
      rw [if_neg Bool.false_ne_true, if_neg Bool.false_ne_true, get_bind_apply, modify_bind_apply,
        get_bind_apply, hworked, hworked, hstop, if_neg Bool.false_ne_true, modify_bind_apply,
        get_bind_apply, hworked, hworked, hworked, hstop, if_neg Bool.false_ne_true]
      change ((isLive run t >>= _) (e.compared token)).result = _
      rw [isLive, bind_assoc, get_bind_apply, hlife, if_neg Bool.false_ne_true, result_bind]
      refine congrArg _ (funext fun live => ?_)
      cases live with
      | false => rfl
      | true =>
          rw [if_neg (by simp), if_neg (by simp), get_bind_apply]
          split
          · rfl
          · rfl

theorem result_passInside (e : Editor) (id : Nat) (s : Slot) (r : Request) :
    (passInside run id s r e).result =
      let course := wantedHighlights run s.resolver r.tree (e.worked r.token unitsBegin)
      match course.result with
      | .ok wanted => (reconcileWith run id s.target r.token wanted course.last).result
      | .error (.panic p) => .ok (.failed (.classifierPanicked p.message))
      | .error h => .error h := by
  unfold passInside EditorM.work EditorM.catching
  rw [modify_bind_apply, bind_assoc]
  change (Act.bind (attempt _) _ (e.worked r.token unitsBegin)).result = _
  unfold Act.bind attempt
  rcases wantedHighlights run s.resolver r.tree (e.worked r.token unitsBegin) with
    ⟨_, (_ | _ | _) | _, _⟩ <;> rfl

theorem outcome_publish (e : Editor) (id : Nat) (t : Target) (wanted : List Highlight) (d : Delta)
    (next : List Highlight) : (e.publish id t wanted d next).1 =
      if d.isEmpty then .unchanged else .published d.add.length d.remove.length := by
  unfold Editor.publish
  split <;> rfl

/-! ### From stage to stage -/

section Decision

variable {r : Request} {id : Nat} {s : Slot} {wanted : List Highlight}

/-- What a pass meets when it is done with classification.  It asked its resolver in calls of its
own. -/
theorem classifying_spec (hrun : Commanding run) (hfit : Fit e) (h : Enters e r id s) :
    let classified := (classifying run e r id s).last
    classified.gateValue id = s.gate.value ∧ classified.policy = e.policy ∧
      classified.tablesOf s.resolver = e.tablesOf s.resolver ∧
      ∀ wanted, (classifying run e r id s).result = .ok wanted →
        classified.Finds s.resolver (e.callsOf s.resolver) r.tree wanted := by
  intro classified
  obtain ⟨-, hs⟩ := Editor.slot?_eq_some.mp h.slot
  let begun := (e.enterGate id s.entered.gate).worked r.token unitsBegin
  have hfit₁ : Fit begun :=
    (Step.outside (outside_worked _ _ _)).fit ((Step.enter hs h.free).fit hfit)
  have hs₁ : begun.slots[id]? = some s.entered := enterGate_slot hs
  have hid : s.resolver < begun.resolvers.length := hfit.resolvers s (List.mem_of_getElem? hs)
  have hspec := (wantedHighlights_spec hrun hfit₁ hid r.tree).2
  have hgrows : Grows none begun classified := (hspec.1.1 hfit₁).2.2
  refine ⟨?_, hgrows.policy, hgrows.tablesOf hid, hspec.2⟩
  have hkept := (hspec.1.inside hfit₁ hs₁ rfl).2
  rw [Editor.gateValue, show classified.slots[id]? = _ from hkept]
  rfl

/-- With a table that is never swapped, the tree and the table say what is found. -/
theorem Enters.wanted_of_steady (hrun : Commanding run) (hfit : Fit e) (h : Enters e r id s)
    (hwanted : (classifying run e r id s).result = .ok wanted) {table : StyleTable}
    (hsteady : ∀ n, e.tablesOf s.resolver n = table) :
    wanted = e.policy.highlights table.style r.tree := by
  obtain ⟨-, hpolicy, htables, hfinds⟩ := classifying_spec hrun hfit h
  have hfound := hfinds wanted hwanted
  rw [Editor.Finds, hpolicy, htables] at hfound
  exact hfound.eq_of_steady hsteady

theorem Enters.result (h : Enters e r id s) : (reconcile run r e).result =
    match (classifying run e r id s).result with
    | .ok wanted =>
      (reconcileWith run id s.target r.token wanted (classifying run e r id s).last).result
    | .error (.panic p) => .ok (.failed (.classifierPanicked p.message))
    | .error halted => .error halted := by
  rw [reconcile_of_free h.slot h.free, result_closePass, result_passInside]
  rfl

theorem Enters.panics_iff {p : Payload} : (classifying run e r id s).result = .error (.panic p) ↔
    Panics run s.resolver p (e.kindsOf r.tree)
      ((e.enterGate id s.entered.gate).worked r.token unitsBegin) :=
  result_styleMarks_iff _ _

theorem Compares.result (hrun : Commanding run) (hfit : Fit e) (h : Compares run e r id s wanted) :
    (reconcile run r e).result = (asking run e r id s).result.bind fun live =>
      if live = false then .ok .targetGone
      else if (asking run e r id s).last.isInterrupted r.token s.target then
        .ok (.cancelled .beforeDispatch)
      else if (s.deltaTo wanted).isEmpty then .ok .unchanged
      else .ok (.published (s.deltaTo wanted).add.length (s.deltaTo wanted).remove.length) := by
  obtain ⟨hvalue, -⟩ := classifying_spec hrun hfit h.toEnters
  rw [h.toEnters.result, h.styled]
  dsimp only
  rw [result_reconcileWith, h.on, if_neg Bool.false_ne_true, hvalue]
  simp only [outcome_publish, apply_ite Except.ok]
  rfl

/-- The change of a pass is empty exactly if all looks as it should. -/
theorem Compares.isEmpty_deltaTo_iff (hrun : Commanding run) (he : e.Reachable)
    (h : Compares run e r id s wanted) : (s.deltaTo wanted).isEmpty = true ↔
      wanted.map Highlight.appearance = s.gate.value.map Highlight.appearance := by
  obtain ⟨-, -, -, hfinds⟩ := classifying_spec hrun he.fit h.toEnters
  exact Delta.isEmpty_between_iff
    (he.shown.slots id s (Editor.slot?_eq_some.mp h.slot).2).ordered
    (hfinds wanted h.styled).ordered

theorem Decided.result (hrun : Commanding run) (he : e.Reachable) {o : Outcome}
    (h : Decided run e r o) : (reconcile run r e).result = .ok o := by
  cases h with
  | notInstalled h =>
      have hslot : e.slot? r.doc = none := by
        rw [Editor.slot?, h]
        rfl
      rw [reconcile_of_none hslot]
  | dropped hslot hbusy => rw [reconcile_of_busy hslot hbusy]
  | failed h hpanic => rw [h.result, Enters.panics_iff.mpr hpanic]
  | classified h hstyled hstop =>
      rw [h.result, hstyled]
      dsimp only
      rw [result_reconcileWith, hstop, if_pos rfl]
  | targetGone h hgone =>
      rw [h.result hrun he.fit, hgone]
      rfl
  | beforeDispatch h hlive hstop =>
      rw [h.result hrun he.fit, hlive, hstop]
      rfl
  | unchanged h hsame =>
      rw [h.result hrun he.fit, h.live, h.through, (h.isEmpty_deltaTo_iff hrun he).mpr hsame]
      rfl
  | published h hother =>
      have hchange : (Slot.deltaTo _ _).isEmpty = false :=
        Bool.eq_false_iff.mpr (mt (h.isEmpty_deltaTo_iff hrun he).mp hother)
      rw [h.result hrun he.fit, h.live, h.through, hchange]
      rfl

/-- A pass that found all styles and goes on is decided by what its surface does. -/
theorem Compares.decided_or (hrun : Commanding run) (he : e.Reachable)
    (h : Compares run e r id s wanted) :
    (∃ o, Decided run e r o) ∨
      ∃ halted, (asking run e r id s).result = .error halted ∧
        (reconcile run r e).result = .error halted := by
  cases hasked : (asking run e r id s).result with
  | error halted =>
      refine Or.inr ⟨halted, rfl, ?_⟩
      rw [h.result hrun he.fit, hasked]
      rfl
  | ok live =>
      refine Or.inl ?_
      cases live with
      | false => exact ⟨_, .targetGone h hasked⟩
      | true =>
          cases hstop : (asking run e r id s).last.isInterrupted r.token s.target with
          | true => exact ⟨_, .beforeDispatch h hasked hstop⟩
          | false =>
              have hfinish : Finishes run e r id s wanted :=
                { h with live := hasked, through := hstop }
              by_cases hsame :
                  wanted.map Highlight.appearance = s.gate.value.map Highlight.appearance
              · exact ⟨_, .unchanged hfinish hsame⟩
              · exact ⟨_, .published hfinish hsame⟩

/-- A pass has an outcome, unless a script breaks it off or its surface panics. -/
theorem decided_or (hrun : Commanding run) (he : e.Reachable) (r : Request) :
    (∃ o, Decided run e r o) ∨
      (∃ id s wanted halted, Compares run e r id s wanted ∧
        (asking run e r id s).result = .error halted ∧
        (reconcile run r e).result = .error halted) ∨
      ∃ halted, (∀ p, halted ≠ .panic p) ∧ (reconcile run r e).result = .error halted := by
  rcases hslot : e.slot? r.doc with _ | ⟨id, s⟩
  · refine Or.inl ⟨_, .notInstalled ?_⟩
    cases hdoc : e.documents.get? r.doc with
    | none => rfl
    | some id =>
        obtain ⟨t, ht, -⟩ := he.fit.installed r.doc id hdoc
        rw [Editor.targets, List.getElem?_map] at ht
        obtain ⟨s, hs, -⟩ := Option.map_eq_some_iff.mp ht
        rw [Editor.slot?_eq_some.mpr ⟨hdoc, hs⟩] at hslot
        cases hslot
  · cases hbusy : s.gate.busy with
    | true => exact Or.inl ⟨_, .dropped hslot hbusy⟩
    | false =>
        have henter : Enters e r id s := ⟨hslot, hbusy⟩
        cases hstyled : (classifying run e r id s).result with
        | ok wanted =>
            cases hstop : (classifying run e r id s).last.isInterrupted r.token s.target with
            | true => exact Or.inl ⟨_, .classified henter hstyled hstop⟩
            | false =>
                have hcompare : Compares run e r id s wanted :=
                  { henter with styled := hstyled, on := hstop }
                rcases hcompare.decided_or hrun he with h | ⟨halted, hasked, hresult⟩
                · exact Or.inl h
                · exact Or.inr (Or.inl ⟨id, s, wanted, halted, hcompare, hasked, hresult⟩)
        | error halted =>
            have hresult : (reconcile run r e).result = _ := henter.result
            rw [hstyled] at hresult
            cases halted with
            | panic p => exact Or.inl ⟨_, .failed henter (Enters.panics_iff.mp hstyled)⟩
            | emptyMark m => exact Or.inr (Or.inr ⟨_, by simp, hresult⟩)
            | outOfFuel => exact Or.inr (Or.inr ⟨_, by simp, hresult⟩)

/-- What a pass that succeeds queues for its slot: its change, if it is one.  The journal tells what
the pass found. -/
theorem changes_of_success (hrun : Commanding run) (hfit : Fit e)
    (hslot : e.slot? r.doc = some (id, s)) (h : Succeeded (reconcile run r e).result) :
    ∃ wanted, (classifying run e r id s).result = .ok wanted ∧
      lastWanted id (reconcile run r e).last.journal = some wanted ∧
      (reconcile run r e).last.changes s.target = e.changes s.target ++
        if (s.deltaTo wanted).isEmpty || (reconcile run r e).last.queue.isClosed then []
        else [s.deltaTo wanted] := by
  obtain ⟨-, hs⟩ := Editor.slot?_eq_some.mp hslot
  obtain ⟨e', wanted, d, hfree, hinside, -, hwanted, hd, hlast⟩ :=
    settled_of_success hrun hfit hslot h
  have hfit₁ := (Step.enter hs hfree).fit hfit
  have hdelta : d = s.deltaTo wanted := hd
  -- while the pass was in, nothing came into the queue for its slot
  have hheld : (e.enterGate id s.entered.gate).Held none id s.entered :=
    ⟨Option.some_ne_none id, enterGate_slot hs, rfl⟩
  obtain ⟨evs, hj, hqueued⟩ := (hinside.1 hfit₁).2.2.journal
  have hentered : (e.enterGate id s.entered.gate).journal = [.entered id] ++ e.journal := rfl
  have hmeanwhile : e'.changes s.target = e.changes s.target :=
    (Editor.changes_of_append hj (hqueued id s.entered hheld)).trans
      (Editor.changes_of_append hentered (by simp))
  have hkeeper := keeper_settle e' id s.target r wanted d (d.apply s.gate.value)
  refine ⟨wanted, hwanted, ?_, ?_⟩
  · rw [hlast]
    exact (lastSuccess_settling (Editor.journal_settle _ _ _ _ _ _ _)).2
  · rw [hlast, Editor.changes_settle, hmeanwhile, RenderQueue.isClosed, RenderQueue.isClosed,
      hkeeper, hdelta]

/-- What a pass queues for its slot if it returns but does not succeed: nothing. -/
theorem changes_of_failure (hrun : Commanding run) (hfit : Fit e)
    (hslot : e.slot? r.doc = some (id, s)) {o : Outcome}
    (ho : (reconcile run r e).result = .ok o) (hfail : o.isSuccess = false) :
    (reconcile run r e).last.changes s.target = e.changes s.target := by
  have hnot : ¬Succeeded (reconcile run r e).result := by
    intro ⟨o', ho', hsuccess⟩
    rw [ho] at ho'
    cases ho'
    rw [hfail] at hsuccess
    cases hsuccess
  have hspec := (reconcile_spec hrun hfit r).2.2 hnot
  rw [hslot] at hspec
  obtain ⟨evs, hj, hqueued⟩ := hspec.1.journal
  exact Editor.changes_of_append hj hqueued

/-- A pass that succeeds has a change exactly if it publishes one. -/
theorem Decided.isEmpty_deltaTo (hrun : Commanding run) (he : e.Reachable)
    (hslot : e.slot? r.doc = some (id, s)) {o : Outcome} (h : Decided run e r o)
    (ho : o.isSuccess = true) (hwanted : (classifying run e r id s).result = .ok wanted) :
    (s.deltaTo wanted).isEmpty = !o.isChange := by
  have hsame : ∀ {id' s' wanted'}, Compares run e r id' s' wanted' → s' = s ∧ wanted' = wanted := by
    intro id' s' wanted' h'
    obtain ⟨rfl, rfl⟩ : id' = id ∧ s' = s := by simpa using h'.slot.symm.trans hslot
    exact ⟨rfl, by simpa using h'.styled.symm.trans hwanted⟩
  cases h with
  | unchanged h hlooks =>
      obtain ⟨rfl, rfl⟩ := hsame h.toCompares
      exact (h.isEmpty_deltaTo_iff hrun he).mpr hlooks
  | published h hother =>
      obtain ⟨rfl, rfl⟩ := hsame h.toCompares
      exact Bool.eq_false_iff.mpr (mt (h.isEmpty_deltaTo_iff hrun he).mp hother)
  | notInstalled | dropped | failed | classified | targetGone | beforeDispatch => cases ho

/-- What a pass that returns queues for its slot. -/
theorem changes_reconcile (hrun : Commanding run) (he : e.Reachable)
    (hslot : e.slot? r.doc = some (id, s)) {o : Outcome}
    (ho : (reconcile run r e).result = .ok o) (hdecided : Decided run e r o) :
    ∃ wanted, (o.isSuccess = true → (classifying run e r id s).result = .ok wanted ∧
        lastWanted id (reconcile run r e).last.journal = some wanted) ∧
      (reconcile run r e).last.changes s.target = e.changes s.target ++
        if o.isChange && !(reconcile run r e).last.queue.isClosed then [s.deltaTo wanted]
        else [] := by
  cases hsuccess : o.isSuccess with
  | false =>
      have hchange : o.isChange = false := by
        cases o <;> simp_all [Outcome.isChange, Outcome.isSuccess]
      refine ⟨[], by simp, ?_⟩
      rw [changes_of_failure hrun he.fit hslot ho hsuccess, hchange]
      exact (List.append_nil _).symm
  | true =>
      obtain ⟨wanted, hwanted, hlast, hchanges⟩ :=
        changes_of_success hrun he.fit hslot ⟨o, ho, hsuccess⟩
      refine ⟨wanted, fun _ => ⟨hwanted, hlast⟩, ?_⟩
      rw [hchanges, hdecided.isEmpty_deltaTo hrun he hslot hsuccess hwanted]
      cases o.isChange <;> cases (reconcile run r e).last.queue.isClosed <;> rfl

end Decision

/-- **How a pass ends.**  Whatever scripts its callbacks run, a pass ends with an outcome exactly if
that outcome is decided by what it meets.  What it finds are the marks of its tree in the styles its
resolver had for them in calls it got during the pass; with a table that is never swapped, the tree
and the table say what that is.  It queues one change for its slot if it publishes, from what was
shown to what it found, whose parts are counted in the outcome, and none otherwise.  If there is fuel
for all scripts that may still run, it has an outcome, unless its surface panics when asked or a
script tries to build a mark of no length. -/
theorem reconcile_result_iff_decided {e : Editor} (he : e.Reachable) (fuel : Nat) (r : Request) :
    let course := reconcile (execute fuel) r e
    (∀ o, course.result = .ok o ↔ Decided (execute fuel) e r o) ∧
    (∀ id s wanted, Enters e r id s → (classifying (execute fuel) e r id s).result = .ok wanted →
      (classifying (execute fuel) e r id s).last.Finds s.resolver (e.callsOf s.resolver) r.tree
        wanted ∧
      ∀ table, (∀ n, e.tablesOf s.resolver n = table) →
        wanted = e.policy.highlights table.style r.tree) ∧
    (∀ o id s, e.slot? r.doc = some (id, s) → course.result = .ok o →
      ∃ wanted, (o.isSuccess = true →
        (classifying (execute fuel) e r id s).result = .ok wanted ∧
        lastWanted id course.last.journal = some wanted) ∧
      course.last.changes s.target = e.changes s.target ++
        if o.isChange && !course.last.queue.isClosed then [s.deltaTo wanted] else []) ∧
    (e.load ≤ fuel →
      (∃ o, course.result = .ok o) ∨
      (∃ id s wanted p, Compares (execute fuel) e r id s wanted ∧
        (asking (execute fuel) e r id s).result = .error (.panic p) ∧
        course.result = .error (.panic p)) ∨
      ∃ m, course.result = .error (.emptyMark m)) := by
  intro course
  have hrun := execute_commanding fuel
  have hdecided : ∀ o, course.result = .ok o → Decided (execute fuel) e r o := by
    intro o ho
    rcases decided_or hrun he r with ⟨o', ho'⟩ | ⟨_, _, _, halted, _, _, h⟩ | ⟨halted, _, h⟩
    · have heq : Except.ok o' = Except.ok o := (ho'.result hrun he).symm.trans ho
      cases heq
      exact ho'
    · cases h.symm.trans ho
    · cases h.symm.trans ho
  refine ⟨fun o => ⟨hdecided o, fun h => h.result hrun he⟩, ?_, ?_, ?_⟩
  · intro id s wanted henter hwanted
    exact ⟨(classifying_spec hrun he.fit henter).2.2.2 wanted hwanted, fun _ hsteady =>
      henter.wanted_of_steady hrun he.fit hwanted hsteady⟩
  · intro o id s hslot ho
    exact changes_reconcile hrun he hslot ho (hdecided o ho)
  · intro hfuel
    have hspent : course.result ≠ .error .outOfFuel :=
      (reconcile_spends (execute_fueled fuel) hfuel r).2.1
    rcases decided_or hrun he r with ⟨o, ho⟩ | ⟨id, s, wanted, halted, hstage, hasked, h⟩ |
      ⟨halted, hno, h⟩
    · exact Or.inl ⟨o, ho.result hrun he⟩
    · cases halted with
      | panic p => exact Or.inr (Or.inl ⟨id, s, wanted, p, hstage, hasked, h⟩)
      | emptyMark m => exact Or.inr (Or.inr ⟨m, h⟩)
      | outOfFuel => exact absurd h hspent
    · cases halted with
      | panic p => exact absurd rfl (hno p)
      | emptyMark m => exact Or.inr (Or.inr ⟨m, h⟩)
      | outOfFuel => exact absurd h hspent

open OneNumber in
/-- The surface, asked by the pass, uninstalls the document and goes away: the view being gone comes
first. -/
theorem decided_uninstalled_and_disposed :
    let e := installed [[.uninstall ⟨1⟩, .dispose "view"]]
    let course := reconcile (execute 4) request e
    e.load ≤ 4 ∧ course.result = .ok .targetGone ∧ course.last.isTornDown slot.target = true ∧
      Decided (execute 4) e request .targetGone ∧ course.last.changes slot.target = [] := by
  have hload : (installed [[.uninstall ⟨1⟩, .dispose "view"]]).load ≤ 4 := by cbv
  have hcourse : (reconcile (execute 4) request
      (installed [[.uninstall ⟨1⟩, .dispose "view"]])).result = .ok .targetGone ∧
      (reconcile (execute 4) request
        (installed [[.uninstall ⟨1⟩, .dispose "view"]])).last.isTornDown slot.target = true := by
    simp only [reconcile, passInside, wantedHighlights, Policy.classifyTree_eq_auction]
    cbv
  obtain ⟨hresult, htorn⟩ := hcourse
  obtain ⟨hdecided, -, hchanges, -⟩ := reconcile_result_iff_decided
    (reachable_installed [[.uninstall ⟨1⟩, .dispose "view"]]) 4 request
  obtain ⟨wanted, -, hnothing⟩ := hchanges _ 0 slot (slot?_installed _) hresult
  exact ⟨hload, hresult, htorn, (hdecided _).mp hresult, hnothing⟩

end Highlighting
