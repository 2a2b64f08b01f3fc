/-
What the counters count.

Every pass that ends is counted once, as the journal tells, so the counters are a
function of the endings in it.  Each ending is in turn the answer to somebody: to a
command from outside, or to one of a script, which the journal records.  So the
counters are the outcomes that were returned, sorted by kind.  And since the
highlights of a slot change only with a pass that publishes a change, those added
less those removed are the ones all slots show together.
-/
import Highlighting.Proofs.Editor.Compose
import Highlighting.Proofs.Editor.Fuel
import Highlighting.Proofs.Outcome
import Mathlib

namespace Highlighting

open Act EditorM

/-! ### Counting outcomes -/

namespace Outcome

/-- Whether two outcomes are of one kind. -/
def isLike : Outcome → Outcome → Bool
  | published .., published .. | unchanged, unchanged | dropped, dropped
  | cancelled _, cancelled _ | failed _, failed _ | notInstalled, notInstalled
  | targetGone, targetGone => true
  | _, _ => false

/-- How many highlights a pass with this outcome added, and how many it removed. -/
def change : Outcome → Nat × Nat
  | published added removed => (added, removed)
  | _ => 0

end Outcome

namespace Counters

/-- The counter for outcomes of a kind. -/
def of (c : Counters) : Outcome → UInt64
  | .published .. => c.published
  | .unchanged => c.unchanged
  | .dropped => c.dropped
  | .cancelled _ => c.cancelled
  | .failed _ => c.failed
  | .notInstalled => c.notInstalled
  | .targetGone => c.targetGone

/-- All passes that were counted. -/
def total (c : Counters) : UInt64 :=
  c.published + c.unchanged + c.dropped + c.cancelled + c.failed + c.notInstalled + c.targetGone

theorem of_record (c : Counters) (o o' : Outcome) :
    (c.record o).of o' = c.of o' + if o.isLike o' then 1 else 0 := by
  cases o <;> cases o' <;>
    simp only [record, of, Outcome.isLike, if_true, Bool.false_eq_true, if_false, add_zero]

theorem total_record (c : Counters) (o : Outcome) : (c.record o).total = c.total + 1 := by
  cases o <;> simp only [record, total] <;> ac_rfl

theorem added_record (c : Counters) (o : Outcome) :
    (c.record o).added = c.added + UInt64.ofNat o.change.1 := by
  cases o <;> simp [record, Outcome.change]

theorem removed_record (c : Counters) (o : Outcome) :
    (c.record o).removed = c.removed + UInt64.ofNat o.change.2 := by
  cases o <;> simp [record, Outcome.change]

/-- The counters after some more outcomes, the latest first. -/
def after (c : Counters) (os : List Outcome) : Counters := os.foldr (fun o c => c.record o) c

theorem after_append (c : Counters) (os os' : List Outcome) :
    c.after (os' ++ os) = (c.after os).after os' := by
  rw [after, List.foldr_append, after, after]

/-- A count that every outcome moves by its own number moves by their sum. -/
theorem after_of_record {f : Counters → UInt64} {g : Outcome → Nat}
    (h : ∀ c o, f (c.record o) = f c + UInt64.ofNat (g o)) (c : Counters) (os : List Outcome) :
    f (c.after os) = f c + UInt64.ofNat (os.map g).sum := by
  induction os with
  | nil => simp [after]
  | cons o os ih =>
      rw [after, List.foldr_cons, h]
      change f (c.after os) + _ = _
      rw [ih, List.map_cons, List.sum_cons, UInt64.ofNat_add, add_assoc,
        add_comm (UInt64.ofNat (g o))]

theorem of_after (c : Counters) (os : List Outcome) (o : Outcome) :
    (c.after os).of o = c.of o + UInt64.ofNat (os.countP (·.isLike o)) := by
  have hcount : (os.map fun o' => if o'.isLike o then 1 else 0).sum = os.countP (·.isLike o) := by
    induction os with
    | nil => rfl
    | cons o' os ih => rw [List.map_cons, List.sum_cons, ih, List.countP_cons, Nat.add_comm]
  rw [after_of_record (f := (·.of o)) (fun c o' => ?_) c os, hcount]
  rw [of_record]
  split <;> rfl

theorem total_after (c : Counters) (os : List Outcome) :
    (c.after os).total = c.total + UInt64.ofNat os.length := by
  rw [after_of_record (g := fun _ => 1) total_record c os, List.map_const', List.sum_replicate,
    smul_eq_mul, mul_one]

theorem added_after (c : Counters) (os : List Outcome) :
    (c.after os).added = c.added + UInt64.ofNat (os.map Outcome.change).sum.1 := by
  rw [after_of_record added_record c os, ← AddMonoidHom.coe_fst, map_list_sum, List.map_map]
  rfl

theorem removed_after (c : Counters) (os : List Outcome) :
    (c.after os).removed = c.removed + UInt64.ofNat (os.map Outcome.change).sum.2 := by
  rw [after_of_record removed_record c os, ← AddMonoidHom.coe_snd, map_list_sum, List.map_map]
  rfl

end Counters

/-! ### Endings and answers -/

/-- The outcome a pass ended with, if an event tells of that. -/
def Event.outcome? : Event → Option Outcome
  | ended _ _ o => some o
  | _ => none

/-- The outcome of the pass that was asked for, if it returned one. -/
def Answer.outcome? : Answer → Option Outcome
  | passed o _ => some o
  | _ => none

/-- The outcome a script was answered, if an event tells of that. -/
def Event.reply? : Event → Option Outcome
  | answered _ a => a.outcome?
  | _ => none

/-- How many highlights were added to a slot with an event, and how many removed. -/
def Event.change : Event → Nat × Nat
  | ended (some _) _ o => o.change
  | _ => 0

/-- The outcomes passes ended with, the latest first. -/
def endings (evs : List Event) : List Outcome := evs.filterMap Event.outcome?

/-- The outcomes scripts were answered, the latest first. -/
def replies (evs : List Event) : List Outcome := evs.filterMap Event.reply?

section Append

variable (evs evs' : List Event)

theorem endings_append : endings (evs' ++ evs) = endings evs' ++ endings evs :=
  List.filterMap_append

theorem replies_append : replies (evs' ++ evs) = replies evs' ++ replies evs :=
  List.filterMap_append

variable {evs}

theorem endings_of_aside (h : ∀ ev ∈ evs, ev.isReckoned = false) : endings evs = [] :=
  List.filterMap_eq_nil_iff.mpr fun ev hev => by
    have hother := h ev hev
    cases ev <;> simp_all [Event.isReckoned, Event.outcome?]

theorem replies_of_aside (h : ∀ ev ∈ evs, ev.isReckoned = false) : replies evs = [] :=
  List.filterMap_eq_nil_iff.mpr fun ev hev => by
    have hother := h ev hev
    cases ev <;> simp_all [Event.isReckoned, Event.reply?]

theorem sum_change_eq_zero (h : ∀ ev ∈ evs, ev.change = 0) : (evs.map Event.change).sum = 0 := by
  refine List.sum_eq_zero fun n hn => ?_
  obtain ⟨ev, hev, rfl⟩ := List.mem_map.mp hn
  exact h ev hev

theorem sum_change_of_aside (h : ∀ ev ∈ evs, ev.isReckoned = false) :
    (evs.map Event.change).sum = 0 :=
  sum_change_eq_zero fun ev hev => by
    have hother := h ev hev
    cases ev <;> simp_all [Event.isReckoned, Event.change]

end Append

/-! ### The counters follow the endings -/

/-- From `e` to `e'` the counters moved by the endings the journal tells of, and passes that
changed something were on a slot. -/
def Audits (e e' : Editor) : Prop :=
  ∃ evs, e'.journal = evs ++ e.journal ∧
    e'.metrics.counters = e.metrics.counters.after (endings evs) ∧
    ((endings evs).map Outcome.change).sum = (evs.map Event.change).sum

instance : IsPreorder Editor Audits where
  refl e := ⟨[], rfl, rfl, rfl⟩
  trans _ _ _ := by
    rintro ⟨evs, hj, hcounters, hchange⟩ ⟨evs', hj', hcounters', hchange'⟩
    refine ⟨evs' ++ evs, ?_, ?_, ?_⟩
    · rw [hj', hj, List.append_assoc]
    · rw [hcounters', hcounters, endings_append, Counters.after_append]
    · rw [endings_append, List.map_append, List.map_append, List.sum_append, List.sum_append,
        hchange, hchange']

theorem Aside.audits {e e' : Editor} (h : Aside e e') : Audits e e' := by
  obtain ⟨evs, hj, hevs⟩ := h.journal
  refine ⟨evs, hj, ?_, ?_⟩
  · rw [endings_of_aside hevs, h.metrics]
    rfl
  · rw [endings_of_aside hevs, sum_change_of_aside hevs]
    rfl

theorem audits_recordPass (e : Editor) (slot : Option Nat) (r : Request) {o : Outcome}
    (h : slot = none → o.change = 0) : Audits e (e.recordPass slot r o) := by
  refine ⟨[.ended slot r o], rfl, rfl, ?_⟩
  cases slot with
  | none => simp [endings, Event.outcome?, Event.change, h]
  | some id => simp [endings, Event.outcome?, Event.change]

/-- Telling of something that is not counted. -/
theorem audits_of_uncounted {e e' : Editor} (event : Event) (houtcome : event.outcome? = none)
    (hmetrics : e'.metrics = e.metrics) (hj : e'.journal = event :: e.journal) : Audits e e' := by
  have hchange : event.change = 0 := by
    cases event <;> simp_all [Event.outcome?, Event.change]
  refine ⟨[event], hj, ?_, ?_⟩
  · rw [hmetrics, endings, List.filterMap_cons_none houtcome]
    rfl
  · rw [endings, List.filterMap_cons_none houtcome]
    simp [hchange]

theorem composes_audits : Composes fun _ x => Keeps Audits x :=
  composes_keeps fun _ _ h => h.audits

section Run

variable {run : Script → EditorM Unit}

theorem reconcile_audits (hrun : ∀ script, Keeps Audits (run script)) (r : Request) :
    Keeps Audits (reconcile run r) := .get_bind fun e => by
  split
  · exact ((Keeps.modify fun e => audits_recordPass e none r fun _ => rfl).bind fun _ =>
      .pure _) e
  · rename_i id s _
    split
    · exact ((Keeps.modify fun e => audits_recordPass e (some id) r (by simp)).bind fun _ =>
        .pure _) e
    · have hleave : ∀ e : Editor, Audits e (e.leaveGate id) := fun e => ⟨[], rfl, rfl, rfl⟩
      have hinside := (composes_audits.passInside hrun id s r).ensuring hleave
      refine ((Keeps.modify fun e => ?_).bind fun _ => hinside.attempt.bind fun result => ?_) e
      · exact audits_of_uncounted (.entered id) rfl rfl rfl
      · split
        · exact (Keeps.modify fun e => audits_recordPass e (some id) r (by simp)).bind fun _ =>
            .pure _
        · refine Keeps.bind (Keeps.modify fun e => ?_) fun _ => .halt _
          exact audits_of_uncounted (.unwound id r) rfl rfl rfl
        · exact .halt _

theorem execute_audits (fuel : Nat) : ∀ script, Keeps Audits (execute fuel script) := by
  refine composes_audits.execute (fun run hrun fuel c => ?_) fuel
  have hcommand := composes_audits.performWith hrun fuel c fun _ _ _ _ => reconcile_audits hrun
  refine hcommand.bind fun answer => Keeps.modify fun e => ?_
  exact audits_of_uncounted (.answered c.name answer) rfl rfl rfl

theorem perform_audits (fuel : Nat) (c : Command) : Keeps Audits (perform fuel c) :=
  composes_audits.performWith (execute_audits fuel) fuel c fun _ _ _ _ =>
    reconcile_audits (execute_audits fuel)

/-! ### Every ending is an answer -/

/-- From `e` to `e'` passes ended with the outcomes that scripts were answered and, last of all,
with those that are still owed to somebody. -/
def Owes (os : List Outcome) (e e' : Editor) : Prop :=
  ∃ evs, e'.journal = evs ++ e.journal ∧ endings evs = os ++ replies evs

theorem Owes.after {os : List Outcome} {e e' e'' : Editor} (h : Owes [] e e')
    (h' : Owes os e' e'') : Owes os e e'' := by
  obtain ⟨evs, hj, hends⟩ := h
  obtain ⟨evs', hj', hends'⟩ := h'
  refine ⟨evs' ++ evs, ?_, ?_⟩
  · rw [hj', hj, List.append_assoc]
  · rw [endings_append, replies_append, hends, hends', List.nil_append, List.append_assoc]

instance : IsPreorder Editor (Owes []) where
  refl _ := ⟨[], rfl, rfl⟩
  trans _ _ _ h h' := h.after h'

theorem Aside.owes {e e' : Editor} (h : Aside e e') : Owes [] e e' := by
  obtain ⟨evs, hj, hevs⟩ := h.journal
  exact ⟨evs, hj, by rw [endings_of_aside hevs, replies_of_aside hevs]; rfl⟩

/-- One more event. -/
theorem Owes.tell {os os' : List Outcome} {e e' e'' : Editor} (h : Owes os e e') (event : Event)
    (hj : e''.journal = event :: e'.journal)
    (hevent : event.outcome?.toList ++ os = os' ++ event.reply?.toList) : Owes os' e e'' := by
  obtain ⟨evs, hj', hends⟩ := h
  refine ⟨event :: evs, by rw [hj, hj', List.cons_append], ?_⟩
  have hcons : ∀ {f : Event → Option Outcome},
      (event :: evs).filterMap f = (f event).toList ++ evs.filterMap f := by
    intro f
    cases hf : f event <;> simp [hf]
  rw [endings, replies, hcons, hcons, ← List.append_assoc, ← hevent, List.append_assoc]
  exact congrArg _ hends

theorem composes_owes : Composes fun _ x => Keeps (Owes []) x :=
  composes_keeps fun _ _ h => h.owes

/-- A pass that returns owes its outcome to whoever asked for it. -/
theorem reconcile_owes (hrun : ∀ script, Keeps (Owes []) (run script)) (r : Request) (e : Editor) :
    Ensures (reconcile run r) e (Owes [] e) fun result e' =>
      Owes result.toOption.toList e e' := by
  unfold Ensures
  rcases hslot : e.slot? r.doc with _ | ⟨id, s⟩
  · rw [reconcile_of_none hslot]
    exact ⟨by simp, (refl e : Owes [] e e).tell (.ended none r .notInstalled) rfl rfl⟩
  cases hgate : s.gate.busy with
  | true =>
      rw [reconcile_of_busy hslot hgate]
      exact ⟨by simp, (refl e : Owes [] e e).tell (.ended (some id) r .dropped) rfl rfl⟩
  | false =>
      rw [reconcile_of_free hslot hgate]
      have henter : Owes [] e (e.enterGate id s.entered.gate) :=
        (refl e : Owes [] e e).tell (.entered id) rfl rfl
      obtain ⟨hseen, hlast⟩ :=
        composes_owes.passInside hrun id s r (e.enterGate id s.entered.gate)
      generalize passInside run id s r (e.enterGate id s.entered.gate) = inside at hseen hlast ⊢
      refine ⟨fun m hm => ?_, ?_⟩
      · rw [seen_closePass] at hm
        exact henter.after (hseen m hm)
      · rcases inside with ⟨seen, (p | _ | _) | o, e'⟩
        · exact (henter.after hlast).tell (.unwound id r) rfl rfl
        · exact henter.after hlast
        · exact henter.after hlast
        · exact (henter.after hlast).tell (.ended (some id) r o) rfl rfl

theorem reconcileAnswer_owes (hrun : ∀ script, Keeps (Owes []) (run script)) (doc : DocumentId)
    (tree : SyntaxTree) (token : Token) (e : Editor) :
    Ensures (reconcileAnswer run doc tree token) e (Owes [] e) fun result e' =>
      Owes (result.toOption.bind Answer.outcome?).toList e e' := by
  unfold reconcileAnswer
  rw [ensures_bind, ensures_catching]
  refine (reconcile_owes hrun _ e).mono (fun _ hm => hm) ?_
  rintro ((p | _ | _) | o) e' howes <;> dsimp only
  · rw [next_ok, ensures_bind, ensures_get, next_ok, ensures_pure]
    exact howes
  · exact howes
  · exact howes
  · rw [next_ok, ensures_bind, ensures_get, next_ok, ensures_pure]
    exact howes

theorem result_reconcileAnswer {doc : DocumentId} {tree : SyntaxTree} {token : Token} {e : Editor}
    {o : Outcome} (h : (reconcile run ⟨doc, tree, token⟩ e).result = .ok o) :
    ∃ work, (reconcileAnswer run doc tree token e).result = .ok (.passed o work) := by
  suffices hanswer : Ensures (reconcileAnswer run doc tree token) e (fun _ => True) fun result _ =>
      ∃ work, result = .ok (.passed o work) from hanswer.2
  unfold reconcileAnswer
  rw [ensures_bind, ensures_catching]
  refine ⟨fun _ _ => trivial, ?_⟩
  rw [h]
  dsimp only
  rw [next_ok, ensures_bind, ensures_get, next_ok, ensures_pure]
  exact ⟨_, rfl⟩

/-- Only passes are answered with an outcome. -/
def Outcomeless (x : EditorM Answer) : Prop :=
  ∀ e, (x e).result.toOption.bind Answer.outcome? = none

theorem outcomeless_pure {a : Answer} (h : a.outcome? = none) :
    Outcomeless (pure a) := fun _ => h

theorem outcomeless_halt (h : Halt) : Outcomeless (Act.halt h) := fun _ => rfl

theorem Outcomeless.bind {α : Type} (x : EditorM α) {k : α → EditorM Answer}
    (h : ∀ a, Outcomeless (k a)) : Outcomeless (x >>= k) := by
  intro e
  rw [Act.result_bind]
  cases (x e).result with
  | error => rfl
  | ok a => exact h a _

theorem outcomeless_alter (f : Editor → Editor) : Outcomeless (alter f) :=
  .bind _ fun _ => outcomeless_pure rfl

theorem outcomeless_named {α : Type} {find : Editor → Option α} {name : String}
    {k : α → EditorM Answer} (h : ∀ a, Outcomeless (k a)) : Outcomeless (named find name k) :=
  .bind _ fun e => by
    split
    · exact h _
    · exact outcomeless_pure rfl

/-- Going on if the coordinator is there, and refusing otherwise. -/
theorem outcomeless_ifCoordinating {refusal : Answer} (hrefusal : refusal.outcome? = none)
    {x : EditorM Answer} (h : Outcomeless x) :
    Outcomeless (do if (← Act.get).coordinating then x else return refusal) :=
  .bind _ fun e => by
    split
    · exact h
    · exact outcomeless_pure hrefusal

theorem outcomeless_renderAnswer (x : EditorM RenderReport) : Outcomeless (renderAnswer x) :=
  .bind _ fun result => by
    cases result <;> exact outcomeless_pure rfl

theorem outcomeless_performWith (fuel : Nat) {c : Command}
    (hc : ∀ doc tree token, c ≠ .reconcile doc tree token) :
    Outcomeless (performWith run fuel c) := by
  have hanswer : ∀ {α : Type} (x : EditorM α) (f : α → Answer), (∀ a, (f a).outcome? = none) →
      Outcomeless (do return f (← x)) := fun x f hf => .bind x fun a => outcomeless_pure (hf a)
  cases c with
  | surface => exact outcomeless_alter _
  | dispose | revive | cancel | target | cancelTarget =>
      exact outcomeless_named fun _ => outcomeless_alter _
  | token name parent =>
      cases parent with
      | none => exact outcomeless_alter _
      | some parent => exact outcomeless_named fun _ => outcomeless_alter _
  | worked => exact outcomeless_named fun _ => .bind _ fun _ => hanswer _ _ fun _ => rfl
  | install => exact outcomeless_ifCoordinating rfl <| outcomeless_named fun _ => outcomeless_alter _
  | uninstall | isInstalled | published | state | metrics | debug =>
      exact outcomeless_ifCoordinating rfl <| hanswer _ _ fun _ => rfl
  | reconcile doc tree token => exact absurd rfl (hc doc tree token)
  | targetInfo =>
      exact outcomeless_named fun _ => .bind _ fun _ => .bind _ fun _ => hanswer _ _ fun _ => rfl
  | dispatch name delta =>
      cases delta with
      | error => exact outcomeless_halt _
      | ok delta =>
          exact outcomeless_named fun _ => outcomeless_ifCoordinating rfl <| .bind _ fun _ =>
            .bind _ fun _ => outcomeless_pure rfl
  | isClosed => exact outcomeless_ifCoordinating rfl <| hanswer _ _ fun _ => rfl
  | drain =>
      refine .bind _ fun e => ?_
      split
      · exact .bind _ fun _ => outcomeless_renderAnswer _
      · exact outcomeless_pure rfl
  | dropQueue =>
      refine .bind _ fun e => ?_
      split
      · exact .bind _ fun _ => outcomeless_pure rfl
      · exact outcomeless_pure rfl
  | finish =>
      refine .bind _ fun _ => .bind _ fun e => ?_
      split
      · exact .bind _ fun _ => outcomeless_renderAnswer _
      · exact .bind _ fun _ => outcomeless_renderAnswer _
      · exact outcomeless_pure rfl
  | panic => exact outcomeless_halt _

/-- **What a command was answered is what is owed for it.** -/
theorem performWith_owes (hrun : ∀ script, Keeps (Owes []) (run script)) (fuel : Nat) (c : Command)
    (e : Editor) : Ensures (performWith run fuel c) e (Owes [] e) fun result e' =>
      Owes (result.toOption.bind Answer.outcome?).toList e e' := by
  by_cases hc : ∃ doc tree token, c = .reconcile doc tree token
  · obtain ⟨doc, tree, token, rfl⟩ := hc
    have hnothing : Owes [] e e := refl e
    have hanswer := reconcileAnswer_owes hrun doc tree
    cases token with
    | some name =>
        change Ensures (coordinated (withToken name (reconcileAnswer run doc tree))) e _ _
        unfold coordinated withToken named
        rw [ensures_bind, ensures_get, next_ok]
        split
        · rw [ensures_bind, ensures_get, next_ok]
          split
          · exact hanswer _ e
          · exact ensures_pure.mpr hnothing
        · exact ensures_pure.mpr hnothing
    | none =>
        change Ensures (coordinated (Act.modifyGet _ >>= reconcileAnswer run doc tree)) e _ _
        unfold coordinated
        rw [ensures_bind, ensures_get, next_ok]
        split
        · rw [ensures_bind, ensures_modifyGet, next_ok]
          have hfresh : Owes [] e { e with tokens := e.tokens.new.2 } := ⟨[], rfl, rfl⟩
          exact (hanswer _ _).mono (fun _ hm => hfresh.after hm) fun _ _ h => hfresh.after h
        · exact ensures_pure.mpr hnothing
  · have hother : ∀ doc tree token, c ≠ .reconcile doc tree token := fun doc tree token heq =>
      hc ⟨doc, tree, token, heq⟩
    obtain ⟨hseen, hlast⟩ := composes_owes.performWith hrun fuel c
      (fun doc tree token heq => absurd heq (hother doc tree token)) e
    refine ⟨hseen, ?_⟩
    beta_reduce
    rw [outcomeless_performWith fuel hother e]
    exact hlast

end Run

theorem execute_owes (fuel : Nat) : ∀ script, Keeps (Owes []) (execute fuel script) := by
  refine composes_owes.execute (fun run hrun fuel c e => ?_) fuel
  rw [ensures_bind]
  refine (performWith_owes hrun fuel c e).mono (fun _ hm => hm) ?_
  rintro (halted | answer) e' howes
  · exact howes
  · rw [next_ok, log, ensures_modify]
    exact howes.tell (.answered c.name answer) rfl rfl

/-! ### Sessions -/

/-- The outcomes that were returned to the commands of a session. -/
def returned (log : List (Answer × List Event)) : List Outcome :=
  log.filterMap fun entry => entry.1.outcome?

theorem converse_owes {fuel : Nat} {script : Script} {e last : Editor}
    {log : List (Answer × List Event)} (h : e.converse fuel script = (.ok log, last)) :
    ∃ evs, last.journal = evs ++ e.journal ∧
      (endings evs).Perm (returned log ++ replies evs) := by
  induction script generalizing e log with
  | nil =>
      cases h
      exact ⟨[], rfl, .refl _⟩
  | cons c rest ih =>
      obtain ⟨answer, log', hanswer, hrest, rfl⟩ := Editor.converse_ok_cons h
      obtain ⟨evs, hj, hends⟩ := (performWith_owes (execute_owes fuel) fuel c e).2
      change (perform fuel c e).last.journal = _ at hj
      change endings evs = ((perform fuel c e).result.toOption.bind Answer.outcome?).toList ++ _
        at hends
      obtain ⟨evs', hj', hends'⟩ := ih hrest
      refine ⟨evs' ++ evs, ?_, ?_⟩
      · rw [hj', hj, List.append_assoc]
      · have hreturned : ∀ events, returned ((answer, events) :: log') =
            answer.outcome?.toList ++ returned log' := by
          intro events
          unfold returned
          cases hout : answer.outcome? <;> simp [hout]
        rw [hanswer] at hends
        rw [endings_append, replies_append, hends, hreturned, List.perm_iff_count]
        intro o
        have hcount := hends'.count_eq o
        simp only [List.count_append, Except.toOption, Option.bind_some] at hcount ⊢
        omega

/-- The endings of a session so far are the outcomes that were returned so far. -/
theorem endings_perm {policy : Policy} {table : StyleTable} {thread : Bool} {fuel : Nat}
    {script : Script} {log : List (Answer × List Event)} {e m : Editor}
    (hrun : (Editor.new policy table thread).converse fuel script = (.ok log, e))
    (hm : Editor.Moment fuel e m) :
    (endings m.journal).Perm (returned log ++ replies m.journal) := by
  obtain ⟨evs, hj, hends⟩ := converse_owes hrun
  have hjournal : e.journal = evs := by simpa [Editor.new] using hj
  rw [← hjournal] at hends
  rcases hm with rfl | ⟨c, hm⟩
  · exact hends
  · obtain ⟨evs', hj', hends'⟩ := (performWith_owes (execute_owes fuel) fuel c e).1 m hm
    rw [hj', endings_append, replies_append, hends', List.nil_append, List.perm_iff_count]
    intro o
    have hcount := hends.count_eq o
    simp only [List.count_append] at hcount ⊢
    omega

theorem converse_audits {fuel : Nat} {script : Script} {e last : Editor}
    {log : List (Answer × List Event)} (h : e.converse fuel script = (.ok log, last)) :
    Audits e last := by
  induction script generalizing e log with
  | nil =>
      cases h
      exact refl _
  | cons c rest ih =>
      obtain ⟨_, _, -, hrest, -⟩ := Editor.converse_ok_cons h
      exact IsTrans.trans _ _ _ (perform_audits fuel c e).2 (ih hrest)

/-! ### What all slots show -/

/-- How many highlights all slots show together, those of slots that were torn down included. -/
def Editor.shownCount (e : Editor) : Nat := (e.slots.map fun s => s.snapshot.length).sum

/-- Every highlight that was added is shown or was removed. -/
def Conserved (e : Editor) : Prop :=
  e.shownCount + (e.journal.map Event.change).sum.2 = (e.journal.map Event.change).sum.1

theorem Conserved.of_quiet {e e' : Editor} (h : Conserved e) (hquiet : Quiet e e') :
    Conserved e' := by
  have hshown : e'.slots.map (fun s => s.snapshot.length) =
      e.slots.map fun s => s.snapshot.length := by
    refine List.ext_getElem? fun i => ?_
    rw [List.getElem?_map, List.getElem?_map]
    cases hs' : e'.slots[i]? with
    | none =>
        have hi : e.slots[i]? = none := by
          rw [List.getElem?_eq_none_iff, ← hquiet.length]
          exact List.getElem?_eq_none_iff.mp hs'
        rw [hi]
    | some s' =>
        obtain ⟨s, b, hs, rfl⟩ := hquiet.slots i s' hs'
        rw [hs]
        rfl
  obtain ⟨evs, hj, hsuccess, -⟩ := hquiet.journal
  have hchange : (evs.map Event.change).sum = 0 := by
    refine sum_change_eq_zero fun ev hev => ?_
    have hfail := hsuccess ev hev
    match ev with
    | .ended slot r o =>
        cases o with
        | published => cases hfail
        | _ => cases slot <;> rfl
    | .asked .. | .applied .. | .resolved .. | .answered .. | .tornDown .. | .entered ..
    | .settled .. | .unwound .. | .queued .. | .taken .. | .discarded .. | .lost ..
    | .reported .. => rfl
  unfold Conserved at h ⊢
  rw [Editor.shownCount, hshown, hj, List.map_append, List.sum_append, hchange, zero_add]
  exact h

theorem Conserved.install {e : Editor} (h : Conserved e) (doc : DocumentId) (surface : Nat)
    (r : Resolver) : Conserved (e.install doc surface r) := by
  obtain ⟨evs, hj, htorn⟩ := journal_install e doc surface r
  have hchange : (evs.map Event.change).sum = 0 := by
    refine sum_change_eq_zero fun ev hev => ?_
    obtain ⟨t, rfl⟩ := htorn ev hev
    rfl
  have hshown : (e.install doc surface r).shownCount = e.shownCount := by
    rw [Editor.shownCount, slots_install, List.map_append, List.sum_append]
    rfl
  unfold Conserved at h ⊢
  rw [hshown, hj, List.map_append, List.sum_append, hchange, zero_add]
  exact h

/-- What a pass that succeeds returns is what it changed. -/
theorem change_publish (e : Editor) (id : Nat) (t : Target) (wanted : List Highlight) (d : Delta)
    (next : List Highlight) :
    (e.publish id t wanted d next).1.change = (d.add.length, d.remove.length) := by
  rw [outcome_publish]
  split
  · rename_i hempty
    rw [Delta.isEmpty, Bool.and_eq_true, List.isEmpty_iff, List.isEmpty_iff] at hempty
    rw [hempty.1, hempty.2]
    rfl
  · rfl

theorem Conserved.settle {e : Editor} (h : Conserved e) {id : Nat} {s : Slot} {r : Request}
    {wanted : List Highlight} (hs : e.slots[id]? = some s) (hshown : s.snapshot = s.gate.value) :
    Conserved (e.settle id s.target r wanted (.between s.gate.value wanted)
      ((Delta.between s.gate.value wanted).apply s.gate.value)) := by
  have hlength := Delta.length_apply_between s.gate.value wanted
  set d := Delta.between s.gate.value wanted
  set next := d.apply s.gate.value
  have hslots : (e.settle id s.target r wanted d next).shownCount + s.snapshot.length =
      e.shownCount + next.length := by
    rw [Editor.shownCount, Editor.slots_settle]
    exact sum_map_modify (fun s : Slot => s.snapshot.length) hs
  have hjournal : ((e.settle id s.target r wanted d next).journal.map Event.change).sum =
      (d.add.length, d.remove.length) + (e.journal.map Event.change).sum := by
    have hrest : (((if d.isEmpty then [] else e.sent ⟨s.target, d⟩) ++
        [Event.settled id wanted]).map Event.change).sum = 0 := by
      refine sum_change_eq_zero fun ev hev => ?_
      rcases List.mem_append.mp hev with hev | hev
      · split at hev
        · simp at hev
        · rw [Editor.mem_sent hev]
          rfl
      · rw [List.mem_singleton.mp hev]
        rfl
    rw [Editor.journal_settle, Editor.settling, List.map_append, List.sum_append, List.map_cons,
      List.sum_cons, Event.change, change_publish, hrest, add_zero]
  unfold Conserved at h ⊢
  rw [hjournal, Prod.fst_add, Prod.snd_add]
  rw [hshown] at hslots
  omega

theorem Step.conserved {e e' : Editor} (hstep : Step e e') (hfit : Fit e)
    (h : Shown e ∧ Conserved e) : Shown e' ∧ Conserved e' := by
  refine ⟨hstep.shown hfit h.1, ?_⟩
  rcases hstep.quiet_or hfit with hquiet | ⟨doc, surface, r, rfl⟩ |
    ⟨id, s, r, wanted, d, hs, -, rfl, rfl⟩
  · exact h.2.of_quiet hquiet
  · exact h.2.install doc surface r
  · exact h.2.settle hs (h.1.slots id s hs).snapshot

theorem Editor.Reachable.conserved {e : Editor} (h : e.Reachable) : Conserved e :=
  (h.invariant (I := fun e => Shown e ∧ Conserved e)
    (fun policy table thread => ⟨shown_new policy table thread, rfl⟩)
    fun _ _ hfit hI hstep => hstep.conserved hfit hI).2.2

/-! ### What the counters say -/

/-- **The counters are the outcomes that were returned.**  At every moment of every session, passes
inside the callbacks of others included: each counter is the number of passes that returned an
outcome of its kind, to a command of the session or to one of a script; all counters together are
the number of passes that returned; and the highlights added less those removed are the highlights
all slots show, also those of slots that were torn down.  Counters wrap, so all this is meant modulo
their range. -/
theorem counters_conservation {policy : Policy} {table : StyleTable} {thread : Bool} {fuel : Nat}
    {script : Script} {log : List (Answer × List Event)} {e m : Editor}
    (hrun : (Editor.new policy table thread).converse fuel script = (.ok log, e))
    (hm : Editor.Moment fuel e m) :
    let outcomes := returned log ++ replies m.journal
    (∀ o, m.metrics.counters.of o = UInt64.ofNat (outcomes.countP (·.isLike o))) ∧
    m.metrics.counters.total = UInt64.ofNat outcomes.length ∧
    m.metrics.counters.added - m.metrics.counters.removed =
      UInt64.ofNat (m.slots.map fun s => s.snapshot.length).sum := by
  intro outcomes
  have hreach : m.Reachable := by
    have hconverse := (Editor.Reachable.new policy table thread).converse fuel script
    rw [hrun] at hconverse
    exact hconverse.moment hm
  have haudits : Audits (Editor.new policy table thread) m := by
    rcases hm with rfl | ⟨c, hm⟩
    · exact converse_audits hrun
    · exact IsTrans.trans _ _ _ (converse_audits hrun) ((perform_audits fuel c e).1 m hm)
  have hends : (endings m.journal).Perm outcomes := endings_perm hrun hm
  have hconserved : Conserved m := hreach.conserved
  obtain ⟨evs, hj, hcounters, hchange⟩ := haudits
  have hjournal : m.journal = evs := by simpa [Editor.new] using hj
  rw [← hjournal] at hcounters hchange
  change m.metrics.counters = Counters.after {} (endings m.journal) at hcounters
  rw [hcounters]
  refine ⟨fun o => ?_, ?_, ?_⟩
  · rw [Counters.of_after, hends.countP_eq]
    have hzero : ({} : Counters).of o = 0 := by cases o <;> rfl
    rw [hzero, zero_add]
  · rw [Counters.total_after, hends.length_eq]
    exact zero_add _
  · rw [Counters.added_after, Counters.removed_after, hchange, ← hconserved, UInt64.ofNat_add]
    change 0 + (_ + _) - (0 + _) = _
    rw [zero_add, zero_add, add_sub_cancel_right]
    rfl

open OneNumber in
/-- The surface, asked by a pass that publishes, runs another one, which is dropped. -/
theorem counters_oneNumber :
    let e := passed [[.reconcile ⟨1⟩ tree none]]
    replies e.journal = [.dropped] ∧ e.slots.map (fun s => s.snapshot.length) = [1] ∧
      e.metrics.counters.of (.published 0 0) = 1 ∧ e.metrics.counters.of .dropped = 1 ∧
      e.metrics.counters.total = 2 ∧ e.metrics.counters.added - e.metrics.counters.removed = 1 := by
  intro e
  have hpassed : replies e.journal = [.dropped] ∧
      e.slots.map (fun s => s.snapshot.length) = [1] ∧
      (reconcile (execute 1) request (installed [[.reconcile ⟨1⟩ tree none]])).result =
        .ok (.published 1 0) := by
    unfold e
    simp only [passed, perform, performWith, reconcileAnswer, reconcile, passInside,
      wantedHighlights, Policy.classifyTree_eq_auction, Editor.recordPass]
    generalize Metrics.record = record
    cbv
  obtain ⟨hreplies, hslots, hreturns⟩ := hpassed
  obtain ⟨work, hanswer⟩ := result_reconcileAnswer hreturns
  have hrun : (Editor.new .default .default false).converse 1
      [.surface "view" [[.reconcile ⟨1⟩ tree none]] [] false,
        .install ⟨1⟩ "view" (.table []) false [], .token "token" none] =
      (.ok [(.done, []), (.done, []), (.done, [])], installed [[.reconcile ⟨1⟩ tree none]]) := rfl
  obtain ⟨events, hsession⟩ :=
    Editor.converse_concat (c := .reconcile ⟨1⟩ tree (some "token")) hrun hanswer
  obtain ⟨hkinds, htotal, hshown⟩ := counters_conservation hsession (.inl rfl)
  change ∀ o, e.metrics.counters.of o = UInt64.ofNat ((_ ++ replies e.journal).countP _) at hkinds
  change e.metrics.counters.total = UInt64.ofNat (_ ++ replies e.journal).length at htotal
  change _ = UInt64.ofNat (e.slots.map _).sum at hshown
  rw [hreplies] at hkinds htotal
  rw [hslots] at hshown
  exact ⟨hreplies, hslots, hkinds _, hkinds _, htotal, hshown⟩

end Highlighting
