/-
What is always in order in an editor.

The scopes are what matters here.  The life of a slot is a scope of its own: no
other slot has it, and no token and no target with a name either, so it can only be
ended by tearing the slot down, and the journal tells when that happened.  Next to
that, documents point to slots that are there, slots to resolvers that are there,
and no turn is left open while nobody drains the queue.
-/
import Highlighting.Proofs.Editor.Step
import Mathlib

namespace Highlighting

theorem map_modify {α β : Type} {k : α → β} {f : α → α} {g : β → β} (h : ∀ a, k (f a) = g (k a))
    (l : List α) (i : Nat) : (l.modify i f).map k = (l.map k).modify i g := by
  refine List.ext_getElem? fun j => ?_
  rw [List.getElem?_map, List.getElem?_modify, List.getElem?_modify, List.getElem?_map]
  cases l[j]? with
  | none => rfl
  | some a =>
      show some (k (if i = j then f a else a)) = some (if i = j then g (k a) else k a)
      by_cases hij : i = j
      · rw [if_pos hij, if_pos hij, h]
      · rw [if_neg hij, if_neg hij]

theorem map_modify_of_const {α β : Type} {f : α → α} {g : α → β} (h : ∀ a, g (f a) = g a)
    (l : List α) (i : Nat) : (l.modify i f).map g = l.map g := by
  rw [map_modify (g := id) h, List.modify_id]

structure Fit (e : Editor) : Prop where
  /-- Nothing stands above the life of a slot. -/
  root : ∀ t ∈ e.targets, t.lifetime.above = []
  made : ∀ t ∈ e.targets, t.lifetime.own < e.tokens.scopes
  /-- No two slots share a life. -/
  apart : (e.targets.map (·.lifetime.own)).Nodup
  /-- Nothing with a name has the life of a slot. -/
  named : ∀ n, e.Named n → n < e.tokens.scopes ∧ ∀ t ∈ e.targets, t.lifetime.own ≠ n
  cancelled : ∀ n ∈ e.tokens.cancelled, n < e.tokens.scopes
  /-- Whenever the life of a slot ended, the journal tells of it. -/
  told : ∀ t ∈ e.targets, t.lifetime.own ∈ e.tokens.cancelled → .tornDown t ∈ e.journal
  ended : ∀ t, .tornDown t ∈ e.journal → t.lifetime.own ∈ e.tokens.cancelled
  resolvers : ∀ s ∈ e.slots, s.resolver < e.resolvers.length
  installed : ∀ doc id, e.documents.get? doc = some id → ∃ t, e.targets[id]? = some t ∧ t.doc = doc
  turn : e.queue.keeper ≠ .draining → turnOf e.journal = none

/-- A new editor is in order. -/
theorem fit_new (policy : Policy) (table : StyleTable) (thread : Bool) :
    Fit (.new policy table thread) where
  root := by simp [Editor.targets, Editor.new]
  made := by simp [Editor.targets, Editor.new]
  apart := by simp [Editor.targets, Editor.new]
  named := by simp [Editor.Named, Editor.new]
  cancelled := fun _ h => absurd h List.not_mem_nil
  told := by simp [Editor.targets, Editor.new]
  ended := by simp [Editor.new]
  resolvers := by simp [Editor.new]
  installed := by simp [Editor.new]
  turn := fun _ => rfl

/-! ### Changes that leave lives and names alone -/

/-- Slots, their lives, and what has a name are as before. -/
structure SameLives (e e' : Editor) : Prop where
  targets : e'.targets = e.targets := by rfl
  assigned : e'.slots.map (·.resolver) = e.slots.map (·.resolver) := by rfl
  resolvers : e'.resolvers = e.resolvers := by rfl
  scopes : e'.tokens.scopes = e.tokens.scopes := by rfl
  cancelled : e'.tokens.cancelled = e.tokens.cancelled := by rfl
  tokenNames : e'.tokenNames = e.tokenNames := by rfl
  targetNames : e'.targetNames = e.targetNames := by rfl
  documents : e'.documents = e.documents := by rfl

theorem SameLives.trans {e e' e'' : Editor} (h : SameLives e e') (h' : SameLives e' e'') :
    SameLives e e'' where
  targets := h'.targets.trans h.targets
  assigned := h'.assigned.trans h.assigned
  resolvers := h'.resolvers.trans h.resolvers
  scopes := h'.scopes.trans h.scopes
  cancelled := h'.cancelled.trans h.cancelled
  tokenNames := h'.tokenNames.trans h.tokenNames
  targetNames := h'.targetNames.trans h.targetNames
  documents := h'.documents.trans h.documents

theorem SameLives.named {e e' : Editor} (h : SameLives e e') (n : Nat) :
    e'.Named n ↔ e.Named n := by
  rw [Editor.Named, Editor.Named, h.tokenNames, h.targetNames]

theorem Fit.of_sameLives {e e' : Editor} (hfit : Fit e) (h : SameLives e e')
    (htold : ∀ t, .tornDown t ∈ e'.journal ↔ .tornDown t ∈ e.journal)
    (hturn : e'.queue.keeper ≠ .draining → turnOf e'.journal = none) : Fit e' where
  root := by rw [h.targets]; exact hfit.root
  made := by rw [h.targets, h.scopes]; exact hfit.made
  apart := by rw [h.targets]; exact hfit.apart
  named := by
    intro n hn
    rw [h.targets, h.scopes]
    exact hfit.named n ((h.named n).mp hn)
  cancelled := by rw [h.cancelled, h.scopes]; exact hfit.cancelled
  told := by
    intro t ht hc
    rw [h.targets] at ht
    rw [h.cancelled] at hc
    exact (htold t).mpr (hfit.told t ht hc)
  ended := by
    intro t ht
    rw [h.cancelled]
    exact hfit.ended t ((htold t).mp ht)
  resolvers := by
    intro s hs
    have hmem : s.resolver ∈ e.slots.map (·.resolver) := by
      rw [← h.assigned]
      exact List.mem_map_of_mem hs
    obtain ⟨s', hs', heq⟩ := List.mem_map.mp hmem
    rw [h.resolvers, ← heq]
    exact hfit.resolvers s' hs'
  installed := by rw [h.documents, h.targets]; exact hfit.installed
  turn := hturn

theorem sameLives_modifySlot (e : Editor) (id : Nat) {f : Slot → Slot}
    (ht : ∀ s, (f s).target = s.target) (hr : ∀ s, (f s).resolver = s.resolver) :
    SameLives e (e.modifySlot id f) where
  targets := map_modify_of_const ht _ _
  assigned := map_modify_of_const hr _ _

theorem sameLives_log (e : Editor) (event : Event) : SameLives e (e.log event) where

theorem sameLives_leaveGate (e : Editor) (id : Nat) : SameLives e (e.leaveGate id) :=
  sameLives_modifySlot e id (fun _ => rfl) (fun _ => rfl)

theorem sameLives_recordPass (e : Editor) (slot : Option Nat) (r : Request) (o : Outcome) :
    SameLives e (e.recordPass slot r o) where

theorem sameLives_enterGate (e : Editor) (id : Nat) (inside : Gate (List Highlight)) :
    SameLives e (e.enterGate id inside) :=
  (sameLives_modifySlot e id (f := fun s => { s with gate := inside }) (fun _ => rfl)
    (fun _ => rfl)).trans (sameLives_log _ _)

theorem sameLives_dispatch (e : Editor) (j : Job) : SameLives e (e.dispatch j) := by
  unfold Editor.dispatch
  split <;> exact {}

theorem sameLives_publish (e : Editor) (id : Nat) (t : Target) (wanted : List Highlight) (d : Delta)
    (next : List Highlight) : SameLives e (e.publish id t wanted d next).2 := by
  have hslot : SameLives e
      (e.modifySlot id fun s => { s with gate := s.gate.set next, snapshot := next }) :=
    sameLives_modifySlot e id (fun _ => rfl) (fun _ => rfl)
  have hsettled := hslot.trans (sameLives_log _ (.settled id wanted))
  unfold Editor.publish
  split
  · exact hsettled
  · exact hsettled.trans (sameLives_dispatch _ _)

theorem sameLives_settle (e : Editor) (id : Nat) (t : Target) (r : Request)
    (wanted : List Highlight) (d : Delta) (next : List Highlight) :
    SameLives e (e.settle id t r wanted d next) := by
  have hpub := sameLives_publish e id t wanted d next
  exact (hpub.trans (SameLives.trans {} (sameLives_leaveGate _ id))).trans
    (sameLives_recordPass _ _ _ _)

/-! ### Lives begin and end -/

theorem Fit.eq_of_own_eq {e : Editor} (h : Fit e) {t u : Target} (ht : t ∈ e.targets)
    (hu : u ∈ e.targets) (heq : t.lifetime.own = u.lifetime.own) : t = u :=
  List.inj_on_of_nodup_map h.apart ht hu heq

/-- A target that was torn down is seen to be. -/
theorem Fit.isTornDown {e : Editor} (h : Fit e) {t : Target} (ht : .tornDown t ∈ e.journal) :
    e.isTornDown t = true := by
  simp [Editor.isTornDown, Tokens.isCancelled_eq, Lineage.scopes, h.ended t ht]

theorem fit_tearDown {e : Editor} (h : Fit e) (id : Nat) : Fit (e.tearDown id) := by
  unfold Editor.tearDown
  split
  case h_2 => exact h
  case h_1 s hs =>
    have hmem : s.target ∈ e.targets := List.mem_map_of_mem (List.mem_of_getElem? hs)
    exact {
      root := h.root
      made := h.made
      apart := h.apart
      named := h.named
      cancelled := by
        intro n hn
        rcases List.mem_cons.mp hn with rfl | hn
        · exact h.made _ hmem
        · exact h.cancelled n hn
      told := by
        intro t ht hc
        rcases List.mem_cons.mp hc with hown | hc
        · rw [h.eq_of_own_eq ht hmem hown]
          exact List.mem_cons_self
        · exact List.mem_cons_of_mem _ (h.told t ht hc)
      ended := by
        intro t ht
        rcases List.mem_cons.mp ht with heq | ht
        · cases heq
          exact List.mem_cons_self
        · exact List.mem_cons_of_mem _ (h.ended t ht)
      resolvers := h.resolvers
      installed := h.installed
      turn := by
        intro hk
        rw [Editor.journal_log, turnOf_cons rfl]
        exact h.turn hk }

theorem targets_addSlot (e : Editor) (doc : DocumentId) (surface : Nat) (r : Resolver) :
    (e.addSlot doc surface r).targets = e.targets ++ [⟨doc, surface, ⟨e.tokens.scopes, []⟩⟩] :=
  List.map_append ..

theorem fit_addSlot {e : Editor} (h : Fit e) (doc : DocumentId) (surface : Nat) (r : Resolver) :
    Fit (e.addSlot doc surface r) where
  root := by
    intro t ht
    rw [targets_addSlot, List.mem_append, List.mem_singleton] at ht
    rcases ht with ht | rfl
    · exact h.root t ht
    · rfl
  made := by
    intro t ht
    show _ < e.tokens.scopes + 1
    rw [targets_addSlot, List.mem_append, List.mem_singleton] at ht
    rcases ht with ht | rfl
    · exact Nat.lt_succ_of_lt (h.made t ht)
    · exact Nat.lt_succ_self _
  apart := by
    rw [targets_addSlot, List.map_append]
    refine List.nodup_append.mpr ⟨h.apart, List.nodup_singleton _, ?_⟩
    intro a ha b hb hab
    obtain ⟨t, ht, rfl⟩ := List.mem_map.mp ha
    have hlt : t.lifetime.own < e.tokens.scopes := h.made t ht
    have hown : t.lifetime.own = e.tokens.scopes := hab.trans (List.mem_singleton.mp hb)
    omega
  named := by
    intro n hn
    obtain ⟨hlt, hne⟩ := h.named n hn
    refine ⟨Nat.lt_succ_of_lt hlt, fun t ht => ?_⟩
    rw [targets_addSlot, List.mem_append, List.mem_singleton] at ht
    rcases ht with ht | rfl
    · exact hne t ht
    · exact Nat.ne_of_gt hlt
  cancelled := fun n hn => Nat.lt_succ_of_lt (h.cancelled n hn)
  told := by
    intro t ht hc
    rw [targets_addSlot, List.mem_append, List.mem_singleton] at ht
    rcases ht with ht | rfl
    · exact h.told t ht hc
    · exact absurd (h.cancelled _ hc) (Nat.lt_irrefl _)
  ended := h.ended
  resolvers := by
    intro s hs
    show _ < (e.resolvers ++ [r]).length
    rw [List.length_append, List.length_singleton]
    rcases List.mem_append.mp hs with hs | hs
    · exact Nat.lt_succ_of_lt (h.resolvers s hs)
    · rw [List.mem_singleton.mp hs]
      exact Nat.lt_succ_self _
  installed := by
    intro doc' id hid
    have hlen : e.targets.length = e.slots.length := List.length_map _
    rw [targets_addSlot]
    rw [show (e.addSlot doc surface r).documents = e.documents.set doc e.slots.length from rfl,
      Registry.get?_set] at hid
    split at hid
    · rename_i hdoc
      cases hid
      exact ⟨_, by rw [← hlen, List.getElem?_concat_length], hdoc.symm⟩
    · obtain ⟨t, ht, hdoc⟩ := h.installed doc' id hid
      exact ⟨t, by rw [List.getElem?_append_left (List.getElem?_eq_some_iff.mp ht).1, ht], hdoc⟩
  turn := h.turn

theorem fit_install {e : Editor} (h : Fit e) (doc : DocumentId) (surface : Nat) (r : Resolver) :
    Fit (e.install doc surface r) := by
  unfold Editor.install
  split
  · exact fit_tearDown (fit_addSlot h doc surface r) _
  · exact fit_addSlot h doc surface r

theorem fit_uninstall {e : Editor} (h : Fit e) (doc : DocumentId) : Fit (e.uninstall doc).2 := by
  unfold Editor.uninstall
  split
  · have hforgotten : Fit { e with documents := e.documents.erase doc } := by
      refine ⟨h.root, h.made, h.apart, h.named, h.cancelled, h.told, h.ended, h.resolvers, ?_,
        h.turn⟩
      intro doc' id hid
      rw [Registry.get?_erase] at hid
      split at hid
      · exact absurd hid (by simp)
      · exact h.installed doc' id hid
    exact fit_tearDown hforgotten _
  · exact h

theorem fit_outside {e e' : Editor} (h : Fit e) (ho : Outside e e') : Fit e' := by
  have htargets : e'.targets = e.targets := by rw [Editor.targets, Editor.targets, ho.slots]
  obtain ⟨evs, hjournal, hidle⟩ := ho.journal
  exact {
    root := by rw [htargets]; exact h.root
    made := by
      intro t ht
      rw [htargets] at ht
      exact Nat.lt_of_lt_of_le (h.made t ht) ho.scopes
    apart := by rw [htargets]; exact h.apart
    named := by
      intro n hn
      rw [htargets]
      rcases ho.named n hn with hn | ⟨hfresh, hlt⟩
      · obtain ⟨hlt, hne⟩ := h.named n hn
        exact ⟨Nat.lt_of_lt_of_le hlt ho.scopes, hne⟩
      · refine ⟨hlt, fun t ht => Nat.ne_of_lt (Nat.lt_of_lt_of_le (h.made t ht) hfresh)⟩
    cancelled := by
      intro n hn
      rcases ho.cancelled n hn with hn | hn
      · exact Nat.lt_of_lt_of_le (h.cancelled n hn) ho.scopes
      · exact Nat.lt_of_lt_of_le (h.named n hn).1 ho.scopes
    told := by
      intro t ht hc
      rw [htargets] at ht
      rw [hjournal]
      rcases ho.cancelled _ hc with hc | hn
      · exact List.mem_append_right _ (h.told t ht hc)
      · exact absurd rfl ((h.named _ hn).2 t ht)
    ended := by
      intro t ht
      rw [hjournal] at ht
      rcases List.mem_append.mp ht with ht | ht
      · exact absurd (hidle _ ht) (by simp [Event.isIdle])
      · exact ho.stays _ (h.ended t ht)
    resolvers := by
      have hlen : e'.resolvers.length = e.resolvers.length := by
        simpa using congrArg List.length ho.tables
      rw [ho.slots, hlen]
      exact h.resolvers
    installed := by rw [ho.documents, htargets]; exact h.installed
    turn := by
      rw [ho.queue, hjournal, turnOf_append fun ev hev => Event.not_isTurn_of_isIdle (hidle ev hev)]
      exact h.turn }

/-! ### Every step leaves an editor in order -/

theorem told_sent (e : Editor) (j : Job) (t : Target) (past : List Event) :
    .tornDown t ∈ e.sent j ++ past ↔ .tornDown t ∈ past := by
  unfold Editor.sent
  split <;> simp

theorem turnOf_sent (e : Editor) (j : Job) (past : List Event) :
    turnOf (e.sent j ++ past) = turnOf past := by
  unfold Editor.sent
  split <;> rfl

theorem keeper_dispatch (e : Editor) (j : Job) : (e.dispatch j).queue.keeper = e.queue.keeper := by
  rw [Editor.queue_dispatch]
  split <;> rfl

theorem keeper_settle (e : Editor) (id : Nat) (t : Target) (r : Request) (wanted : List Highlight)
    (d : Delta) (next : List Highlight) :
    (e.settle id t r wanted d next).queue.keeper = e.queue.keeper := by
  rw [Editor.queue_settle]
  split <;> rfl

theorem Step.fit {e e' : Editor} (hstep : Step e e') (h : Fit e) : Fit e' := by
  cases hstep with
  | outside ho => exact fit_outside h ho
  | install doc surface r => exact fit_install h doc surface r
  | uninstall doc => exact fit_uninstall h doc
  | enter =>
      exact h.of_sameLives (sameLives_enterGate _ _ _)
        (by simp [Editor.enterGate, Editor.modifySlot]) fun hk => h.turn hk
  | refuse =>
      exact h.of_sameLives (sameLives_recordPass _ _ _ _) (by simp [Editor.recordPass])
        fun hk => h.turn hk
  | settle =>
      refine h.of_sameLives (sameLives_settle _ _ _ _ _ _ _) ?_ ?_
      · intro t
        rw [Editor.journal_settle, List.mem_append, or_iff_right]
        intro htorn
        rcases Editor.mem_settling htorn with ⟨o, ho, -⟩ | ho | ho <;> cases ho
      · rw [keeper_settle, Editor.journal_settle,
          turnOf_append fun ev hev => Editor.not_isTurn_of_mem_settling hev]
        exact h.turn
  | abort id =>
      exact h.of_sameLives ((sameLives_leaveGate _ id).trans (sameLives_recordPass _ _ _ _))
        (by simp [Editor.recordPass, Editor.leaveGate, Editor.modifySlot]) fun hk => h.turn hk
  | unwind id =>
      exact h.of_sameLives ((sameLives_leaveGate _ id).trans (sameLives_log _ _))
        (by simp [Editor.leaveGate, Editor.modifySlot]) fun hk => h.turn hk
  | leave id =>
      exact h.of_sameLives (sameLives_leaveGate _ id) (fun _ => Iff.rfl) fun hk => h.turn hk
  | send =>
      refine h.of_sameLives (sameLives_dispatch _ _) ?_ ?_
      · intro t
        rw [Editor.journal_dispatch, told_sent]
      · rw [keeper_dispatch, Editor.journal_dispatch, turnOf_sent]
        exact h.turn
  | take hkeeper =>
      exact h.of_sameLives {} (by simp [Editor.take]) fun hk => absurd hkeeper hk
  | skip => exact h.of_sameLives {} (by simp [Editor.take]) fun _ => rfl
  | hand | discard | lose => exact h.of_sameLives (sameLives_log _ _) (by simp) fun _ => rfl
  | keep hfrom hto hturn => exact h.of_sameLives {} (fun _ => Iff.rfl) fun _ => hturn
  | dropQueue hturn => exact h.of_sameLives {} (fun _ => Iff.rfl) fun _ => hturn

end Highlighting
