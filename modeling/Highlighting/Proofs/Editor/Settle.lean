/-
Which steps matter for what a slot shows.

Of all steps only two do: a document is installed, which makes a fresh slot, and a
pass succeeds, which replaces the highlights of one slot.  All others are `Quiet`:
gates may become busy or free, but every slot shows what it showed, and nothing is
queued for any of them.  What is said of slots and the changes queued for them has
three cases to be proved, then, and not one for each step.
-/
import Highlighting.Proofs.Editor.Pass

namespace Highlighting

/-- A slot with a pass in its gate, or without. -/
def Slot.withBusy (s : Slot) (b : Bool) : Slot := { s with gate := { s.gate with busy := b } }

/-- The request of a pass that succeeded on a slot, if an event tells of that. -/
def Event.successOn (id : Nat) : Event → Option Request
  | ended slot r o => if slot = some id ∧ o.isSuccess = true then some r else none
  | _ => none

/-- The candidates with which the highlights of a slot were replaced, if an event tells of that. -/
def Event.wantedOn (id : Nat) : Event → Option (List Highlight)
  | settled slot wanted => if slot = id then some wanted else none
  | _ => none

/-- Whether an event tells of a pass that succeeded. -/
def Event.isSuccess : Event → Bool
  | ended _ _ o => o.isSuccess
  | settled .. => true
  | _ => false

theorem Event.successOn_eq_none {ev : Event} (h : ev.isSuccess = false) (id : Nat) :
    ev.successOn id = none := by
  cases ev with
  | ended slot r o => exact if_neg fun hended => by simp_all [isSuccess]
  | _ => rfl

theorem Event.wantedOn_eq_none {ev : Event} (h : ev.isSuccess = false) (id : Nat) :
    ev.wantedOn id = none := by
  cases ev with
  | settled => cases h
  | _ => rfl

/-- No slot shows anything else than before. -/
structure Quiet (e e' : Editor) : Prop where
  policy : e'.policy = e.policy := by rfl
  tables : e'.resolvers.map (·.tables) = e.resolvers.map (·.tables) := by rfl
  calls : ∀ resolver, e.callsOf resolver ≤ e'.callsOf resolver := by exact fun _ => Nat.le_refl _
  length : e'.slots.length = e.slots.length := by rfl
  slots : ∀ (id : Nat) (s' : Slot), e'.slots[id]? = some s' →
    ∃ (s : Slot) (b : Bool), e.slots[id]? = some s ∧ s' = s.withBusy b := by
      exact fun _ s' h => ⟨s', s'.gate.busy, h, rfl⟩
  scopes : e.tokens.scopes ≤ e'.tokens.scopes := by exact Nat.le_refl _
  gone : e.queue.keeper = .gone → e'.queue.keeper = .gone := by exact fun h => h
  /-- What is queued goes to something that is there, but not to a slot. -/
  journal : ∃ evs, e'.journal = evs ++ e.journal ∧ (∀ ev ∈ evs, ev.isSuccess = false) ∧
    ∀ j, .queued j ∈ evs → j.target ∉ e.targets ∧ j.target.lifetime.own < e'.tokens.scopes := by
      exact ⟨[], rfl, by simp, by simp⟩

variable {e e' : Editor}

theorem Quiet.tablesOf (h : Quiet e e') (resolver : Nat) :
    e'.tablesOf resolver = e.tablesOf resolver := by
  rw [Editor.tablesOf, Editor.tablesOf, h.tables]

theorem Quiet.finds (h : Quiet e e') {resolver n : Nat} {tree : SyntaxTree}
    {wanted : List Highlight} (hwanted : e.Finds resolver n tree wanted) :
    e'.Finds resolver n tree wanted := by
  rw [Editor.Finds, h.policy, h.tablesOf]
  exact hwanted.mono (Nat.le_refl _) (h.calls resolver)

/-! ### The quiet steps -/

theorem quiet_log (e : Editor) {event : Event} (hsuccess : event.isSuccess = false)
    (hqueued : ∀ j, event ≠ .queued j) : Quiet e (e.log event) where
  journal := ⟨[event], rfl, by simpa using hsuccess, fun j hj =>
    absurd (List.mem_singleton.mp hj).symm (hqueued j)⟩

theorem quiet_outside (h : Outside e e') : Quiet e e' where
  policy := h.policy
  tables := h.tables
  calls := h.calls
  length := by rw [h.slots]
  slots := by
    rw [h.slots]
    exact fun _ s' hs' => ⟨s', s'.gate.busy, hs', rfl⟩
  scopes := h.scopes
  gone := by rw [h.queue]; exact fun hk => hk
  journal := by
    obtain ⟨evs, hj, hidle⟩ := h.journal
    refine ⟨evs, hj, fun ev hev => ?_, fun j hmem => ?_⟩
    · have hev := hidle ev hev
      cases ev <;> simp_all [Event.isIdle, Event.isSuccess]
    · exact absurd (hidle _ hmem) (by simp [Event.isIdle])

theorem Quiet.trans {e'' : Editor} (h : Quiet e e') (h' : Quiet e' e'')
    (htargets : e'.targets = e.targets) : Quiet e e'' where
  policy := h'.policy.trans h.policy
  tables := h'.tables.trans h.tables
  calls := fun resolver => Nat.le_trans (h.calls resolver) (h'.calls resolver)
  length := h'.length.trans h.length
  slots := by
    intro id s'' hs''
    obtain ⟨s', b', hs', rfl⟩ := h'.slots id s'' hs''
    obtain ⟨s, b, hs, rfl⟩ := h.slots id s' hs'
    exact ⟨s, b', hs, rfl⟩
  scopes := Nat.le_trans h.scopes h'.scopes
  gone := fun hk => h'.gone (h.gone hk)
  journal := by
    obtain ⟨evs, hj, hsuccess, hqueued⟩ := h.journal
    obtain ⟨evs', hj', hsuccess', hqueued'⟩ := h'.journal
    rw [htargets] at hqueued'
    refine ⟨evs' ++ evs, by rw [hj', hj, List.append_assoc], fun ev hev => ?_, fun j hmem => ?_⟩
    · exact (List.mem_append.mp hev).elim (hsuccess' ev) (hsuccess ev)
    · rcases List.mem_append.mp hmem with hmem | hmem
      · exact hqueued' j hmem
      · exact ⟨(hqueued j hmem).1, Nat.lt_of_lt_of_le (hqueued j hmem).2 h'.scopes⟩

theorem quiet_tearDown (e : Editor) (id : Nat) : Quiet e (e.tearDown id) := by
  unfold Editor.tearDown
  split
  · exact { journal := ⟨[.tornDown _], rfl, by simp [Event.isSuccess], by simp⟩ }
  · exact {}

theorem quiet_uninstall (e : Editor) (doc : DocumentId) : Quiet e (e.uninstall doc).2 := by
  unfold Editor.uninstall
  split
  · have herase : Quiet e { e with documents := e.documents.erase doc } := {}
    exact herase.trans (quiet_tearDown _ _) rfl
  · exact {}

theorem quiet_enterGate {id : Nat} {s : Slot} (hs : e.slots[id]? = some s) :
    Quiet e (e.enterGate id s.entered.gate) where
  length := List.length_modify _ _ _
  slots := by
    intro id' s' hs'
    rw [show (e.enterGate id s.entered.gate).slots =
      (e.modifySlot id fun s' => { s' with gate := s.entered.gate }).slots from rfl,
      Editor.getElem?_modifySlot] at hs'
    split at hs'
    · rename_i hid
      rw [← hid, hs] at hs'
      cases hs'
      exact ⟨s, true, by rw [← hid]; exact hs, rfl⟩
    · exact ⟨s', s'.gate.busy, hs', rfl⟩
  journal := ⟨[.entered id], rfl, by simp [Event.isSuccess], by simp⟩

theorem quiet_leaveGate (e : Editor) (id : Nat) : Quiet e (e.leaveGate id) where
  length := List.length_modify _ _ _
  slots := by
    intro id' s' hs'
    rw [Editor.leaveGate, Editor.getElem?_modifySlot] at hs'
    split at hs'
    · obtain ⟨s, hs, rfl⟩ := Option.map_eq_some_iff.mp hs'
      exact ⟨s, false, hs, rfl⟩
    · exact ⟨s', s'.gate.busy, hs', rfl⟩

theorem quiet_recordPass (e : Editor) (slot : Option Nat) (r : Request) {o : Outcome}
    (ho : o.isSuccess = false) : Quiet e (e.recordPass slot r o) where
  journal := ⟨[.ended slot r o], rfl, by simpa [Event.isSuccess] using ho, by simp⟩

theorem quiet_dispatch (hfit : Fit e) {j : Job} (hj : e.Named j.target.lifetime.own) :
    Quiet e (e.dispatch j) where
  policy := Editor.policy_dispatch e j
  tables := by rw [(sameLives_dispatch e j).resolvers]
  calls := by simp [Editor.callsOf, (sameLives_dispatch e j).resolvers]
  length := by rw [Editor.slots_dispatch]
  slots := by
    rw [Editor.slots_dispatch]
    exact fun _ s' hs' => ⟨s', s'.gate.busy, hs', rfl⟩
  scopes := Nat.le_of_eq (sameLives_dispatch e j).scopes.symm
  gone := by rw [keeper_dispatch]; exact fun hk => hk
  journal := by
    refine ⟨_, Editor.journal_dispatch e j, fun ev hev => ?_, fun j' hmem => ?_⟩
    · rw [Editor.mem_sent hev]
      rfl
    · cases Editor.mem_sent hmem
      obtain ⟨hlt, hne⟩ := hfit.named _ hj
      exact ⟨fun ht => hne _ ht rfl, by rw [(sameLives_dispatch e j).scopes]; exact hlt⟩

/-! ### All steps -/

/-- **A step is quiet, or makes a fresh slot, or is the end of a pass that succeeds.** -/
theorem Step.quiet_or (h : Step e e') (hfit : Fit e) :
    Quiet e e' ∨ (∃ doc surface r, e' = e.install doc surface r) ∨
      ∃ id s r wanted d, e.slots[id]? = some s ∧ e.Finds s.resolver 0 r.tree wanted ∧
        d = .between s.gate.value wanted ∧
        e' = e.settle id s.target r wanted d (d.apply s.gate.value) := by
  cases h with
  | outside h => exact Or.inl (quiet_outside h)
  | install doc surface r => exact Or.inr (Or.inl ⟨doc, surface, r, rfl⟩)
  | uninstall doc => exact Or.inl (quiet_uninstall e doc)
  | enter hs => exact Or.inl (quiet_enterGate hs)
  | refuse slot r ho => exact Or.inl (quiet_recordPass e slot r ho)
  | @settle id s r wanted d hs _ _ hwanted hd =>
      exact Or.inr (Or.inr ⟨id, s, r, wanted, d, hs, hwanted, hd, rfl⟩)
  | abort id r ho =>
      exact Or.inl ((quiet_leaveGate e id).trans (quiet_recordPass _ _ _ ho)
        (sameLives_leaveGate e id).targets)
  | unwind id r =>
      exact Or.inl ((quiet_leaveGate e id).trans (quiet_log _ rfl (by simp))
        (sameLives_leaveGate e id).targets)
  | leave id => exact Or.inl (quiet_leaveGate e id)
  | send hj => exact Or.inl (quiet_dispatch hfit hj)
  | @take j => exact Or.inl { journal := ⟨[.taken j], rfl, by simp [Event.isSuccess], by simp⟩ }
  | @skip j =>
      exact Or.inl {
        journal := ⟨[.discarded j, .taken j], rfl, by simp [Event.isSuccess], by simp⟩ }
  | hand | discard | lose => exact Or.inl (quiet_log e rfl (by simp))
  | keep hfrom => exact Or.inl { gone := fun hk => absurd hk hfrom }
  | dropQueue => exact Or.inl { gone := fun _ => rfl }

/-! ### Slots come and go -/

theorem journal_tearDown (e : Editor) (id : Nat) :
    ∃ evs, (e.tearDown id).journal = evs ++ e.journal ∧ ∀ ev ∈ evs, ∃ t, ev = .tornDown t := by
  unfold Editor.tearDown
  split
  · exact ⟨[.tornDown _], rfl, by simp⟩
  · exact ⟨[], rfl, by simp⟩

theorem tearDown_frame (e : Editor) (id : Nat) : (e.tearDown id).slots = e.slots ∧
    (e.tearDown id).tokens.scopes = e.tokens.scopes ∧ (e.tearDown id).queue = e.queue := by
  unfold Editor.tearDown
  split <;> exact ⟨rfl, rfl, rfl⟩

theorem journal_uninstall (e : Editor) (doc : DocumentId) :
    ∃ evs, (e.uninstall doc).2.journal = evs ++ e.journal ∧ ∀ ev ∈ evs, ∃ t, ev = .tornDown t := by
  unfold Editor.uninstall
  split
  · exact journal_tearDown { e with documents := e.documents.erase doc } _
  · exact ⟨[], rfl, by simp⟩

/-- The slot of a document right after it was installed. -/
def Slot.fresh (e : Editor) (doc : DocumentId) (surface : Nat) : Slot :=
  { target := ⟨doc, surface, ⟨e.tokens.scopes, []⟩⟩, resolver := e.resolvers.length }

section Install

variable (e) (doc : DocumentId) (surface : Nat) (r : Resolver)

theorem slots_install : (e.install doc surface r).slots = e.slots ++ [.fresh e doc surface] := by
  unfold Editor.install
  split
  · exact (tearDown_frame _ _).1
  · rfl

theorem scopes_install : (e.install doc surface r).tokens.scopes = e.tokens.scopes + 1 := by
  unfold Editor.install
  split
  · exact (tearDown_frame _ _).2.1
  · rfl

theorem queue_install : (e.install doc surface r).queue = e.queue := by
  unfold Editor.install
  split
  · exact (tearDown_frame _ _).2.2
  · rfl

/-- All there is to tell of is that a slot was torn down. -/
theorem journal_install : ∃ evs, (e.install doc surface r).journal = evs ++ e.journal ∧
    ∀ ev ∈ evs, ∃ t, ev = .tornDown t := by
  unfold Editor.install
  split
  · exact journal_tearDown (e.addSlot doc surface r) _
  · exact ⟨[], rfl, by simp⟩

end Install

end Highlighting
