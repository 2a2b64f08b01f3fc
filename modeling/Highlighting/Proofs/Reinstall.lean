/-
Documents installed anew while a pass is running.

The callbacks of a pass may tear down the very slot the pass is on, and install the
document again, and run further passes on it.  Two passes for one document are then
alive at once, on two slots.  The earlier one can no longer succeed.  The later slot
starts empty, with a free gate, and whatever happens to it is the doing of passes
that found it, which the journal tells of under its number.
-/
import Highlighting.Proofs.Outcome
import Highlighting.Proofs.Teardown
import Mathlib

namespace Highlighting

open Act

/-- Whether with an event a pass enters the gate of a slot, or ends there.  A pass that is dropped
does neither. -/
def Event.concerns (n : Nat) : Event → Bool
  | entered id => id = n
  | ended slot _ o => slot = some n ∧ o ≠ .dropped
  | unwound id _ => id = n
  | _ => false

theorem Event.concerns_of_isIdle {ev : Event} (h : ev.isIdle = true) (n : Nat) :
    ev.concerns n = false := by
  cases ev <;> simp_all [isIdle, concerns]

/-! ### What one step does to one slot -/

/-- What a step can do to a slot, and the events that go with it. -/
inductive SlotMove (n : Nat) (s : Slot) : List Event → Slot → Prop where
  | rest {evs : List Event} (h : ∀ ev ∈ evs, ev.concerns n = false) : SlotMove n s evs s
  | enter : SlotMove n s [.entered n] s.entered
  | settle {evs : List Event} {r : Request} {o : Outcome} {next : List Highlight}
      (ho : o.isSuccess = true) :
      SlotMove n s (.ended (some n) r o :: evs) { s with gate := ⟨next, false⟩, snapshot := next }
  | leave (evs : List Event) : SlotMove n s evs { s with gate := s.gate.leave }

/-- What a step does to all slots, and what it tells. -/
structure Moves (e e' : Editor) (evs : List Event) : Prop where
  journal : e'.journal = evs ++ e.journal
  slots : ∀ (n : Nat) (s : Slot), e.slots[n]? = some s →
    ∃ s', e'.slots[n]? = some s' ∧ SlotMove n s evs s'
  /-- Nothing is told of slots that are yet to come. -/
  beyond : ∀ n, e.slots.length ≤ n → ∀ ev ∈ evs, ev.concerns n = false

section Step

variable {e e' : Editor}

theorem slots_uninstall (e : Editor) (doc : DocumentId) :
    (e.uninstall doc).2.slots = e.slots := by
  unfold Editor.uninstall
  split
  · exact (tearDown_frame _ _).1
  · rfl

/-- All slots are as they were. -/
theorem Moves.of_rest {evs : List Event} (hj : e'.journal = evs ++ e.journal)
    (hslots : ∀ n < e.slots.length, e'.slots[n]? = e.slots[n]?)
    (hevs : ∀ ev ∈ evs, ∀ n, ev.concerns n = false) : Moves e e' evs where
  journal := hj
  slots := by
    intro n s hs
    have hlt : n < e.slots.length := (List.getElem?_eq_some_iff.mp hs).1
    exact ⟨s, (hslots n hlt).trans hs, .rest fun ev hev => hevs ev hev n⟩
  beyond := fun n _ ev hev => hevs ev hev n

/-- All slots but one are as they were. -/
theorem Moves.of_one {evs : List Event} {id : Nat} (hid : id < e.slots.length)
    (hj : e'.journal = evs ++ e.journal)
    (hmove : ∀ s, e.slots[id]? = some s → ∃ s', e'.slots[id]? = some s' ∧ SlotMove id s evs s')
    (hslots : ∀ n, id ≠ n → e'.slots[n]? = e.slots[n]?)
    (hevs : ∀ ev ∈ evs, ∀ n, id ≠ n → ev.concerns n = false) : Moves e e' evs where
  journal := hj
  slots := by
    intro n s hs
    by_cases hn : id = n
    · subst hn
      exact hmove s hs
    · exact ⟨s, (hslots n hn).trans hs, .rest fun ev hev => hevs ev hev n hn⟩
  beyond := by
    intro n hn ev hev
    exact hevs ev hev n (by omega)

/-- A pass leaves the gate of a slot, and something is told of that slot. -/
theorem Moves.of_leaveGate {evs : List Event} {id : Nat} (hid : id < e.slots.length)
    (hj : e'.journal = evs ++ e.journal) (hslots : e'.slots = (e.leaveGate id).slots)
    (hevs : ∀ ev ∈ evs, ∀ n, id ≠ n → ev.concerns n = false) : Moves e e' evs := by
  refine .of_one hid hj (fun s hs => ⟨{ s with gate := s.gate.leave }, ?_, .leave evs⟩)
    (fun n hn => ?_) hevs
  · rw [hslots, Editor.leaveGate, Editor.getElem?_modifySlot, if_pos rfl, hs]
    rfl
  · rw [hslots, Editor.leaveGate, Editor.getElem?_modifySlot, if_neg hn]

theorem moves_enterGate {id : Nat} {s : Slot} (hs : e.slots[id]? = some s) :
    Moves e (e.enterGate id s.entered.gate) [.entered id] := by
  refine .of_one (List.getElem?_eq_some_iff.mp hs).1 rfl (fun s' hs' => ?_) (fun n hn => ?_)
    (by simp [Event.concerns])
  · rw [hs] at hs'
    cases hs'
    exact ⟨s.entered, enterGate_slot hs, .enter⟩
  · show (e.modifySlot id _).slots[n]? = _
    rw [Editor.getElem?_modifySlot, if_neg hn]

theorem moves_settle {id : Nat} {s : Slot} (hs : e.slots[id]? = some s) (r : Request)
    (wanted : List Highlight) (d : Delta) (next : List Highlight) :
    ∃ evs, Moves e (e.settle id s.target r wanted d next) evs := by
  have hj := Editor.journal_settle e id s.target r wanted d next
  refine ⟨_, .of_one (List.getElem?_eq_some_iff.mp hs).1 hj (fun s' hs' => ?_)
    (fun n hn => ?_) fun ev hev n hn => ?_⟩
  · refine ⟨{ s' with gate := ⟨next, false⟩, snapshot := next }, ?_,
      .settle (Editor.publish_isSuccess e id s.target wanted d next)⟩
    rw [Editor.slots_settle, List.getElem?_modify, hs']
    simp
  · rw [Editor.slots_settle, List.getElem?_modify]
    simp [hn]
  · rcases Editor.mem_settling hev with ⟨o, rfl, -⟩ | rfl | rfl
    · simp [Event.concerns, hn]
    · rfl
    · rfl

/-- **What a step does to slots.** -/
theorem Step.moves (h : Step e e') : ∃ evs, Moves e e' evs := by
  cases h with
  | outside h =>
      obtain ⟨evs, hj, hidle⟩ := h.journal
      exact ⟨evs, .of_rest hj (by simp [h.slots]) fun ev hev n =>
        Event.concerns_of_isIdle (hidle ev hev) n⟩
  | install doc surface r =>
      obtain ⟨evs, hj, htorn⟩ := journal_install e doc surface r
      refine ⟨evs, .of_rest hj (fun n hn => ?_) fun ev hev n => ?_⟩
      · rw [slots_install, List.getElem?_append_left hn]
      · obtain ⟨t, rfl⟩ := htorn ev hev
        rfl
  | uninstall doc =>
      obtain ⟨evs, hj, htorn⟩ := journal_uninstall e doc
      refine ⟨evs, .of_rest hj (by simp [slots_uninstall]) fun ev hev n => ?_⟩
      obtain ⟨t, rfl⟩ := htorn ev hev
      rfl
  | enter hs => exact ⟨_, moves_enterGate hs⟩
  | @refuse slot r o _ hslot =>
      refine ⟨[.ended slot r o], .of_rest rfl (fun _ _ => rfl) fun ev hev n => ?_⟩
      rw [List.mem_singleton.mp hev]
      rcases hslot with rfl | rfl
      · simp [Event.concerns]
      · simp [Event.concerns]
  | @settle id s r wanted d hs => exact moves_settle hs r wanted d _
  | @abort id r o _ hid =>
      refine ⟨[.ended (some id) r o], .of_leaveGate hid rfl rfl fun ev hev n hn => ?_⟩
      rw [List.mem_singleton.mp hev]
      simp [Event.concerns, hn]
  | unwind id r hid =>
      refine ⟨[.unwound id r], .of_leaveGate hid rfl rfl fun ev hev n hn => ?_⟩
      rw [List.mem_singleton.mp hev]
      simp [Event.concerns, hn]
  | leave id =>
      refine ⟨[], ?_⟩
      by_cases hid : id < e.slots.length
      · exact .of_leaveGate hid rfl rfl (by simp)
      · refine .of_rest rfl (fun n hn => ?_) (by simp)
        rw [Editor.leaveGate, Editor.getElem?_modifySlot, if_neg (by omega)]
  | send =>
      refine ⟨_, .of_rest (Editor.journal_dispatch _ _) (by simp [Editor.slots_dispatch])
        fun ev hev n => ?_⟩
      rw [Editor.mem_sent hev]
      rfl
  | @take j => exact ⟨[.taken j], .of_rest rfl (fun _ _ => rfl) (by simp [Event.concerns])⟩
  | @skip j =>
      exact ⟨[.discarded j, .taken j], .of_rest rfl (fun _ _ => rfl) (by simp [Event.concerns])⟩
  | @hand j surface =>
      exact ⟨[.applied surface j], .of_rest rfl (fun _ _ => rfl) (by simp [Event.concerns])⟩
  | @discard j => exact ⟨[.discarded j], .of_rest rfl (fun _ _ => rfl) (by simp [Event.concerns])⟩
  | @lose j => exact ⟨[.lost j], .of_rest rfl (fun _ _ => rfl) (by simp [Event.concerns])⟩
  | keep | dropQueue => exact ⟨[], .of_rest rfl (fun _ _ => rfl) (by simp)⟩

end Step

/-! ### What became of a slot since its gate was free -/

/-- What became of the slot `s₀` since its gate was free, given the events since. -/
structure Since (n : Nat) (s₀ : Slot) (evs : List Event) (s : Slot) : Prop where
  target : s.target = s₀.target
  resolver : s.resolver = s₀.resolver
  /-- Until a pass enters, all is as it was. -/
  untouched : evs.find? (·.concerns n) = none → s = s₀
  /-- A pass is in only if the latest that happened here is that one entered. -/
  busy : s.gate.busy = true → evs.find? (·.concerns n) = some (.entered n)
  /-- Until a pass succeeds here, the highlights stay. -/
  shown : lastSuccess n evs = none → s.gate.value = s₀.gate.value ∧ s.snapshot = s₀.snapshot

theorem lastSuccess_append_eq_none {n : Nat} {evs past : List Event}
    (h : lastSuccess n (evs ++ past) = none) : lastSuccess n past = none := by
  rw [lastSuccess, List.findSome?_append, Option.or_eq_none_iff] at h
  exact h.2

theorem Since.move {n : Nat} {s₀ s s' : Slot} {evs evs' : List Event} (h : Since n s₀ evs s)
    (hfree : s₀.gate.busy = false) (hmove : SlotMove n s evs' s') :
    Since n s₀ (evs' ++ evs) s' := by
  have hearlier : (evs' ++ evs).find? (·.concerns n) = none → evs.find? (·.concerns n) = none := by
    intro hnone
    rw [List.find?_append, Option.or_eq_none_iff] at hnone
    exact hnone.2
  cases hmove with
  | rest hevs =>
      have hskip : (evs' ++ evs).find? (·.concerns n) = evs.find? (·.concerns n) := by
        have hnone : evs'.find? (·.concerns n) = none := by simpa using hevs
        rw [List.find?_append, hnone]
        rfl
      refine ⟨h.target, h.resolver, ?_, ?_, fun hs => h.shown (lastSuccess_append_eq_none hs)⟩
      · rw [hskip]
        exact h.untouched
      · rw [hskip]
        exact h.busy
  | enter =>
      have hfirst : ([Event.entered n] ++ evs).find? (·.concerns n) = some (.entered n) := by
        simp [Event.concerns]
      refine ⟨h.target, h.resolver, ?_, fun _ => hfirst, fun hs =>
        h.shown (lastSuccess_append_eq_none hs)⟩
      rw [hfirst]
      intro hnone
      cases hnone
  | @settle evs r o next ho =>
      refine ⟨h.target, h.resolver, ?_, fun hbusy => absurd hbusy (by simp), ?_⟩
      · intro hnone
        have hdropped : o ≠ .dropped := by
          intro heq
          rw [heq] at ho
          cases ho
        simp [Event.concerns, hdropped] at hnone
      · intro hnone
        simp [lastSuccess, Event.successOn, ho] at hnone
  | leave =>
      refine ⟨h.target, h.resolver, ?_, fun hbusy => absurd hbusy (by simp [Gate.leave]), fun hs =>
        h.shown (lastSuccess_append_eq_none hs)⟩
      intro hnone
      rw [h.untouched (hearlier hnone)]
      obtain ⟨target, resolver, ⟨value, busy⟩, snapshot⟩ := s₀
      cases hfree
      rfl

theorem Steps.since {e e' : Editor} {n : Nat} {s₀ : Slot} (h : Steps e e')
    (hs : e.slots[n]? = some s₀) (hfree : s₀.gate.busy = false) :
    ∃ evs s, e'.journal = evs ++ e.journal ∧ e'.slots[n]? = some s ∧ Since n s₀ evs s := by
  induction h with
  | refl =>
      refine ⟨[], s₀, rfl, hs, rfl, rfl, fun _ => rfl, fun hbusy => ?_, fun _ => ⟨rfl, rfl⟩⟩
      rw [hfree] at hbusy
      cases hbusy
  | tail _ hstep ih =>
      obtain ⟨evs, s, hj, hs', hsince⟩ := ih
      obtain ⟨evs', hmoves⟩ := hstep.moves
      obtain ⟨s', hs'', hmove⟩ := hmoves.slots n s hs'
      refine ⟨evs' ++ evs, s', ?_, hs'', hsince.move hfree hmove⟩
      rw [hmoves.journal, hj, List.append_assoc]

/-! ### Installing -/

section Install

variable (e : Editor) (doc : DocumentId) (surface : Nat) (r : Resolver)

theorem resolvers_install : (e.install doc surface r).resolvers = e.resolvers ++ [r] := by
  unfold Editor.install Editor.tearDown
  split
  · split <;> rfl
  · rfl

theorem documents_install :
    (e.install doc surface r).documents = e.documents.set doc e.slots.length := by
  unfold Editor.install Editor.tearDown
  split
  · split <;> rfl
  · rfl

/-- The document is in the fresh slot. -/
theorem slot?_install :
    (e.install doc surface r).slot? doc = some (e.slots.length, .fresh e doc surface) := by
  refine Editor.slot?_eq_some.mpr ⟨?_, ?_⟩
  · rw [documents_install, Registry.get?_set, if_pos rfl]
  · rw [slots_install, List.getElem?_append_right (Nat.le_refl _), Nat.sub_self]
    rfl

theorem resolver_install :
    (e.install doc surface r).resolvers[e.resolvers.length]? = some r := by
  rw [resolvers_install, List.getElem?_append_right (Nat.le_refl _), Nat.sub_self]
  rfl

end Install

/-- Resolvers keep their tables, whatever happens. -/
theorem Steps.tablesOf {e e' : Editor} (h : Steps e e') (hfit : Fit e) {resolver : Nat}
    (hlt : resolver < e.resolvers.length) :
    Fit e' ∧ resolver < e'.resolvers.length ∧ e'.tablesOf resolver = e.tablesOf resolver := by
  induction h with
  | refl => exact ⟨hfit, hlt, rfl⟩
  | @tail m m' _ hstep ih =>
      obtain ⟨hfit', hlt', htables⟩ := ih
      refine ⟨hstep.fit hfit', ?_⟩
      rcases hstep.quiet_or hfit' with hquiet | ⟨doc, surface, r, rfl⟩ |
        ⟨id, s, r, wanted, d, -, -, -, rfl⟩
      · have hlen := congrArg List.length hquiet.tables
        rw [List.length_map, List.length_map] at hlen
        exact ⟨by omega, (hquiet.tablesOf resolver).trans htables⟩
      · have hgrows : Grows none m (m.install doc surface r) := grows_install m doc surface r
        exact ⟨Nat.lt_of_lt_of_le hlt' hgrows.resolvers_le, (hgrows.tablesOf hlt').trans htables⟩
      · have hsame := (sameLives_settle m id s.target r wanted d (d.apply s.gate.value)).resolvers
        rw [Editor.tablesOf, hsame]
        exact ⟨hlt', htables⟩

/-! ### Passes -/

section Pass

variable {run : Script → EditorM Unit} {e : Editor} {r : Request} {id : Nat} {s : Slot}

/-- A pass is dropped exactly if there is another one in the gate of the slot it finds. -/
theorem reconcile_dropped_iff (hslot : e.slot? r.doc = some (id, s)) :
    (reconcile run r e).result = .ok .dropped ↔ s.gate.busy = true := by
  constructor
  · intro hdropped
    by_contra hfree
    have henter : Enters e r id s := ⟨hslot, by simpa using hfree⟩
    rw [henter.result] at hdropped
    cases hstyled : (classifying run e r id s).result with
    | error halted =>
        rw [hstyled] at hdropped
        cases halted <;> simp at hdropped
    | ok wanted =>
        rw [hstyled] at hdropped
        dsimp only at hdropped
        rw [result_reconcileWith] at hdropped
        split at hdropped
        · simp at hdropped
        · dsimp only at hdropped
          cases hasked : (askSurface run s.target.surface s.target.doc
              ((classifying run e r id s).last.compared r.token)).result with
          | error => simp [hasked, Except.bind] at hdropped
          | ok live =>
              rw [hasked] at hdropped
              simp only [Except.bind, outcome_publish] at hdropped
              split at hdropped
              · simp at hdropped
              · split at hdropped
                · simp at hdropped
                · split at hdropped <;> simp at hdropped
  · intro hbusy
    rw [reconcile_of_busy hslot hbusy]

/-- A pass whose slot was torn down meanwhile does not succeed. -/
theorem not_succeeded_of_tornDown (hrun : Commanding run) (hfit : Fit e)
    (hslot : e.slot? r.doc = some (id, s))
    (htorn : .tornDown s.target ∈ (reconcile run r e).last.journal) :
    ¬Succeeded (reconcile run r e).result := by
  intro hsuccess
  obtain ⟨-, hs⟩ := Editor.slot?_eq_some.mp hslot
  obtain ⟨e', wanted, d, hfree, hinside, hgo, -, -, hlast⟩ :=
    settled_of_success hrun hfit hslot hsuccess
  have hfit' : Fit e' := (hinside.1 ((Step.enter hs hfree).fit hfit)).1
  have hearlier : .tornDown s.target ∈ e'.journal := by
    rw [hlast, Editor.journal_settle] at htorn
    refine (List.mem_append.mp htorn).resolve_left fun hmem => ?_
    rcases Editor.mem_settling hmem with ⟨o, ho, -⟩ | ho | ho <;> cases ho
  have hended : e'.isTornDown s.target = true := by
    simp [Editor.isTornDown, Tokens.isCancelled_eq, Lineage.scopes, hfit'.ended _ hearlier]
  rw [Editor.isInterrupted, hended, Bool.or_true] at hgo
  cases hgo

end Pass

/-! ### Slots from the beginning -/

/-- A slot as it was when it was made. -/
def Slot.born (s : Slot) : Slot := { s with gate := ⟨[], false⟩, snapshot := [] }

theorem since_born (n : Nat) (s : Slot) (evs : List Event) : Since n s.born evs s.born where
  target := rfl
  resolver := rfl
  untouched := fun _ => rfl
  busy := fun h => by cases h
  shown := fun _ => ⟨rfl, rfl⟩

/-- All that is so of a slot comes from passes that entered it. -/
structure Tracked (e : Editor) : Prop where
  resolvers : e.resolvers.length = e.slots.length
  slots : ∀ (n : Nat) (s : Slot), e.slots[n]? = some s →
    s.resolver = n ∧ Since n s.born e.journal s
  beyond : ∀ n, e.slots.length ≤ n → ∀ ev ∈ e.journal, ev.concerns n = false

theorem tracked_new (policy : Policy) (table : StyleTable) (thread : Bool) :
    Tracked (.new policy table thread) where
  resolvers := rfl
  slots := by simp [Editor.new]
  beyond := by simp [Editor.new]

/-- Only installing changes how many slots and resolvers there are. -/
theorem Step.length_or {e e' : Editor} (h : Step e e') (hfit : Fit e) :
    (e'.slots.length = e.slots.length ∧ e'.resolvers.length = e.resolvers.length) ∨
      ∃ doc surface r, e' = e.install doc surface r := by
  rcases h.quiet_or hfit with hquiet | hinstall | ⟨id, s, r, wanted, d, -, -, -, rfl⟩
  · have hlen := congrArg List.length hquiet.tables
    rw [List.length_map, List.length_map] at hlen
    exact Or.inl ⟨hquiet.length, hlen⟩
  · exact Or.inr hinstall
  · rw [Editor.slots_settle, List.length_modify,
      (sameLives_settle e id s.target r wanted d _).resolvers]
    exact Or.inl ⟨rfl, rfl⟩

theorem Step.tracked {e e' : Editor} (hstep : Step e e') (hfit : Fit e) (h : Tracked e) :
    Tracked e' := by
  obtain ⟨evs, hmoves⟩ := hstep.moves
  -- a slot that was there goes on from where it was
  have hold : ∀ n s, e.slots[n]? = some s → ∀ s', e'.slots[n]? = some s' →
      s'.resolver = n ∧ Since n s'.born e'.journal s' := by
    intro n s hs s' hs'
    obtain ⟨hresolver, hsince⟩ := h.slots n s hs
    obtain ⟨s'', hs'', hmove⟩ := hmoves.slots n s hs
    cases hs'.symm.trans hs''
    have hafter := hsince.move rfl hmove
    have hborn : s'.born = s.born := by
      rw [Slot.born, hafter.target, hafter.resolver]
      rfl
    rw [hborn, hmoves.journal]
    exact ⟨hafter.resolver.trans hresolver, hafter⟩
  have hgrown : e.slots.length ≤ e'.slots.length ∧
      e'.resolvers.length = e'.slots.length ∧
      ∀ n s', e.slots.length ≤ n → e'.slots[n]? = some s' →
        s'.resolver = n ∧ Since n s'.born e'.journal s' := by
    rcases hstep.length_or hfit with ⟨hslots, hresolvers⟩ | ⟨doc, surface, r, rfl⟩
    · refine ⟨by omega, by rw [hslots, hresolvers, h.resolvers], fun n s' hn hs' => ?_⟩
      have hlt := (List.getElem?_eq_some_iff.mp hs').1
      omega
    · rw [slots_install, resolvers_install, List.length_append, List.length_append, h.resolvers]
      refine ⟨Nat.le_succ _, rfl, fun n s' hn hs' => ?_⟩
      rw [List.getElem?_append_right hn] at hs'
      have hlt := (List.getElem?_eq_some_iff.mp hs').1
      rw [List.length_singleton] at hlt
      cases List.mem_singleton.mp (List.mem_of_getElem? hs')
      refine ⟨?_, since_born n _ _⟩
      show e.resolvers.length = n
      rw [h.resolvers]
      omega
  refine ⟨hgrown.2.1, fun n s' hs' => ?_, fun n hn ev hev => ?_⟩
  · rcases Nat.lt_or_ge n e.slots.length with hlt | hge
    · exact hold n _ (List.getElem?_eq_getElem hlt) s' hs'
    · exact hgrown.2.2 n s' hge hs'
  · rw [hmoves.journal] at hev
    rcases List.mem_append.mp hev with hev | hev
    · exact hmoves.beyond n (Nat.le_trans hgrown.1 hn) ev hev
    · exact h.beyond n (Nat.le_trans hgrown.1 hn) ev hev

theorem Editor.Reachable.tracked {e : Editor} (h : e.Reachable) : Tracked e :=
  (h.invariant tracked_new fun _ _ hfit hI hstep => hstep.tracked hfit hI).2

/-! ### Stale passes -/

/-- **A pass on a slot that is torn down does nothing, and what comes after it is not its doing.**
If its slot is torn down before a pass ends, the pass does not succeed, its slot is as it was and
nothing was queued for it.  At whatever moment of the pass a document is installed, the document is
then in a slot with no highlights and a free gate, and whatever happens later, that slot has its own
target, resolver and tables; it stays as it is until a pass enters, a pass is in only if the latest
that happened to it is that one entered, and its highlights stay until a pass succeeds on it.  The
same is so at every moment of every slot there is, from the time it was made: no event told of it
before.  A pass that finds a slot is dropped exactly if there is a pass in the gate of that very
slot, and runs there otherwise. -/
theorem reconcile_stale {e : Editor} (he : e.Reachable) (fuel : Nat) {r : Request} {id : Nat}
    {s : Slot} (hslot : e.slot? r.doc = some (id, s)) (hfree : s.gate.busy = false) :
    let course := reconcile (execute fuel) r e
    (.tornDown s.target ∈ course.last.journal →
      (∀ o, course.result = .ok o → o.isSuccess = false) ∧ course.last.slots[id]? = some s ∧
        course.last.changes s.target = e.changes s.target) ∧
    (∀ m ∈ course.seen, ∀ (doc : DocumentId) (surface : Nat) (res : Resolver),
      let fresh := m.install doc surface res
      fresh.slots[id]? = some s.entered ∧
      (m.documents.get? doc = some id → .tornDown s.target ∈ fresh.journal) ∧
      fresh.slot? doc = some (m.slots.length, (Slot.fresh m doc surface).born) ∧
      ∀ m', Steps fresh m' → ∃ evs s', m'.journal = evs ++ fresh.journal ∧
        m'.slots[m.slots.length]? = some s' ∧
        Since m.slots.length (Slot.fresh m doc surface).born evs s' ∧
        m'.tablesOf s'.resolver = res.tables) ∧
    ∀ m : Editor, m.Reachable →
      (∀ n, m.slots.length ≤ n → ∀ ev ∈ m.journal, ev.concerns n = false) ∧
      ∀ (n : Nat) (s' : Slot), m.slots[n]? = some s' →
        s'.resolver = n ∧ Since n s'.born m.journal s' ∧
        ∀ (fuel' : Nat) (r' : Request), m.slot? r'.doc = some (n, s') →
          ((reconcile (execute fuel') r' m).result = .ok .dropped ↔ s'.gate.busy = true) ∧
          (s'.gate.busy = false → reconcile (execute fuel') r' m =
            closePass n r' (passInside (execute fuel') n s' r' (m.enterGate n s'.entered.gate))) := by
  have hrun := execute_commanding fuel
  obtain ⟨-, hs⟩ := Editor.slot?_eq_some.mp hslot
  have hfit₁ := (Step.enter hs hfree).fit he.fit
  intro course
  refine ⟨fun htorn => ?_, fun m hm doc surface res => ?_, fun m hm => ?_⟩
  · have hnot : ¬Succeeded course.result := not_succeeded_of_tornDown hrun he.fit hslot htorn
    have hspec := (reconcile_spec hrun he.fit r).2.2 hnot
    rw [hslot] at hspec
    obtain ⟨hspared, -⟩ := hspec
    obtain ⟨evs, hj, hqueued⟩ := hspared.journal
    refine ⟨fun o ho => ?_, hspared.slot, Editor.changes_of_append hj hqueued⟩
    by_contra hsuccess
    exact hnot ⟨o, ho, by simpa using hsuccess⟩
  · have hinside : Ensures (passInside (execute fuel) id s r) (e.enterGate id s.entered.gate) _ _ :=
      passInside_spec (s := s.entered) hrun hfit₁ (enterGate_slot hs) rfl r
    have hmoment : Runs (e.enterGate id s.entered.gate) m := by
      refine hinside.1 m ?_
      rw [← seen_closePass id r, ← reconcile_of_free hslot hfree]
      exact hm
    obtain ⟨hfit, hkept⟩ := hmoment.inside hfit₁ (enterGate_slot hs) rfl
    have hlt : id < m.slots.length := (List.getElem?_eq_some_iff.mp hkept).1
    have hfresh := slot?_install m doc surface res
    refine ⟨?_, fun hdoc => ?_, hfresh, fun m' hsteps => ?_⟩
    · rw [slots_install, List.getElem?_append_left hlt, hkept]
    · exact (tornDown_of_slot (Editor.slot?_eq_some.mpr ⟨hdoc, hkept⟩)).2.2 surface res
    · have hfit' := (Step.install m doc surface res).fit hfit
      obtain ⟨evs, s', hj, hs', hsince⟩ := hsteps.since (Editor.slot?_eq_some.mp hfresh).2 rfl
      refine ⟨evs, s', hj, hs', hsince, ?_⟩
      rw [hsince.resolver, ← Editor.tablesOf_eq (resolver_install m doc surface res)]
      refine (hsteps.tablesOf hfit' ?_).2.2
      rw [resolvers_install, List.length_append]
      exact Nat.lt_succ_self _
  · refine ⟨hm.tracked.beyond, fun n s' hs' => ?_⟩
    obtain ⟨hresolver, hsince⟩ := hm.tracked.slots n s' hs'
    exact ⟨hresolver, hsince, fun fuel' r' hslot' =>
      ⟨reconcile_dropped_iff hslot', fun hfree' => reconcile_of_free hslot' hfree'⟩⟩

open OneNumber in
/-- The surface, asked by a pass, installs the document anew. -/
theorem stale_oneNumber :
    let e := installed [[.install ⟨1⟩ "view" (.table []) false []]]
    let course := reconcile (execute 1) request e
    e.slot? request.doc = some (0, slot) ∧ course.result = .ok (.cancelled .beforeDispatch) ∧
      .tornDown slot.target ∈ course.last.journal ∧ course.last.slots[0]? = some slot ∧
      course.last.changes slot.target = [] ∧ course.last.published? ⟨1⟩ = some [] ∧
      course.seen.length = 2 ∧ ∀ m ∈ course.seen, ∀ res, (m.install ⟨1⟩ 0 res).slot? ⟨1⟩ =
        some (m.slots.length, (Slot.fresh m ⟨1⟩ 0).born) := by
  intro e course
  have hslot : e.slot? request.doc = some (0, slot) := slot?_installed _
  have hcourse : course.result = .ok (.cancelled .beforeDispatch) ∧
      course.last.published? ⟨1⟩ = some [] ∧ course.seen.length = 2 ∧
      course.last.journal = [.ended (some 0) request (.cancelled .beforeDispatch),
        .answered "install" .done, .tornDown slot.target, .asked "view" ⟨1⟩, .entered 0] := by
    unfold course e
    simp only [reconcile, passInside, wantedHighlights, Policy.classifyTree_eq_auction]
    cbv
  obtain ⟨hresult, hshown, hseen, hjournal⟩ := hcourse
  have htorn : .tornDown slot.target ∈ course.last.journal := by
    rw [hjournal]
    simp
  obtain ⟨hstale, hfresh, -⟩ := reconcile_stale (reachable_installed
    [[.install ⟨1⟩ "view" (.table []) false []]]) 1 hslot rfl
  obtain ⟨-, hspared, hchanges⟩ := hstale htorn
  exact ⟨hslot, hresult, htorn, hspared, hchanges, hshown, hseen, fun m hm res =>
    (hfresh m hm ⟨1⟩ 0 res).2.2.1⟩

end Highlighting
