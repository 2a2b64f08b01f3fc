/-
What commands of other documents leave alone.

`own` tells which slots, surfaces, resolvers and scopes belong to a document.  All
else is `Away` from it.  An editor is `Apart` if what other documents have is away,
and a change is `Foreign` if it keeps that so and touches nothing of the document.
-/
import Highlighting.Proofs.Documents.Ownership
import Highlighting.Proofs.Course

namespace Highlighting

open Act EditorM

/-! ### What is away -/

/-- What an editor numbers. -/
inductive Part where
  | slot | surface | resolver | scope
  deriving DecidableEq

/-- How many of a part there are so far. -/
def Editor.count (e : Editor) : Part → Nat
  | .slot => e.slots.length
  | .surface => e.surfaces.length
  | .resolver => e.resolvers.length
  | .scope => e.tokens.scopes

variable (o : Ownership) (d : DocumentId) (own : Part → Nat → Prop)

/-- Something that is there, with so many of each part, and belongs to others. -/
def Away (n : Part → Nat) (p : Part) (i : Nat) : Prop := i < n p ∧ ¬own p i

def Lineage.Away (n : Part → Nat) (l : Lineage) : Prop :=
  ∀ i ∈ l.scopes, Highlighting.Away own n .scope i

structure Target.Away (n : Part → Nat) (t : Target) : Prop where
  doc : t.doc ≠ d
  surface : Highlighting.Away own n .surface t.surface
  lifetime : t.lifetime.Away own n

/-- What other documents have belongs to them. -/
structure Apart (e : Editor) : Prop where
  bound : ∀ p i, own p i → i < e.count p
  cancelled : ∀ n ∈ e.tokens.cancelled, n < e.tokens.scopes
  documents : ∀ x id, x ≠ d → e.documents.get? x = some id → Away own e.count .slot id
  slots : ∀ (id : Nat) (s : Slot), e.slots[id]? = some s → ¬own .slot id →
    s.target.Away d own e.count ∧ Away own e.count .resolver s.resolver
  surfaceNames : ∀ name id, o.surface name ≠ d → e.surfaceNames.get? name = some id →
    Away own e.count .surface id
  tokenNames : ∀ name t, o.token name ≠ d → e.tokenNames.get? name = some t →
    t.lineage.Away own e.count
  targetNames : ∀ name t, o.target name ≠ d → e.targetNames.get? name = some t →
    t.Away d own e.count
  jobs : ∀ j ∈ e.queue.jobs, j.target.doc ≠ d → j.target.Away d own e.count
  surfaces : ∀ (id : Nat) (s : Surface), e.surfaces[id]? = some s → ¬own .surface id →
    ∃ x, x ≠ d ∧ s.actsOn o x
  resolvers : ∀ (id : Nat) (r : Resolver), e.resolvers[id]? = some r → ¬own .resolver id →
    ∃ x, x ≠ d ∧ r.actsOn o x

/-- Nothing of the document is touched. -/
structure Frame (e e' : Editor) : Prop where
  policy : e'.policy = e.policy
  baseTable : e'.baseTable = e.baseTable
  coordinating : e'.coordinating = e.coordinating
  keeper : e'.queue.keeper = e.queue.keeper
  count : ∀ p, e.count p ≤ e'.count p
  slots : ∀ i, own .slot i → e'.slots[i]? = e.slots[i]?
  surfaces : ∀ i, own .surface i → e'.surfaces[i]? = e.surfaces[i]?
  resolvers : ∀ i, own .resolver i → e'.resolvers[i]? = e.resolvers[i]?
  cancelled : ∀ i, own .scope i → (i ∈ e'.tokens.cancelled ↔ i ∈ e.tokens.cancelled)
  documents : e'.documents.get? d = e.documents.get? d
  surfaceNames : ∀ name, o.surface name = d →
    e'.surfaceNames.get? name = e.surfaceNames.get? name
  tokenNames : ∀ name, o.token name = d → e'.tokenNames.get? name = e.tokenNames.get? name
  targetNames : ∀ name, o.target name = d → e'.targetNames.get? name = e.targetNames.get? name
  jobs : e'.queue.jobs.filter (·.target.doc = d) = e.queue.jobs.filter (·.target.doc = d)
  deeds : e'.deeds d = e.deeds d

/-- Nothing of the document is touched, and what is new belongs to others; there are then so many
of each part. -/
structure Elsewhere (n : Part → Nat) (e e' : Editor) : Prop extends Frame o d own e e' where
  newCancelled : ∀ i ∈ e'.tokens.cancelled, i ∈ e.tokens.cancelled ∨ i < n .scope
  newDocuments : ∀ x id, x ≠ d → e'.documents.get? x = some id →
    e.documents.get? x = some id ∨ Away own n .slot id
  newSlots : ∀ (id : Nat) (s' : Slot), e'.slots[id]? = some s' → ¬own .slot id →
    (∃ s, e.slots[id]? = some s ∧ s'.target = s.target ∧ s'.resolver = s.resolver) ∨
      s'.target.Away d own n ∧ Away own n .resolver s'.resolver
  newSurfaceNames : ∀ name id, o.surface name ≠ d → e'.surfaceNames.get? name = some id →
    e.surfaceNames.get? name = some id ∨ Away own n .surface id
  newTokenNames : ∀ name t, o.token name ≠ d → e'.tokenNames.get? name = some t →
    e.tokenNames.get? name = some t ∨ t.lineage.Away own n
  newTargetNames : ∀ name t, o.target name ≠ d → e'.targetNames.get? name = some t →
    e.targetNames.get? name = some t ∨ t.Away d own n
  newJobs : ∀ j ∈ e'.queue.jobs, j ∈ e.queue.jobs ∨ j.target.Away d own n
  newSurfaces : ∀ (id : Nat) (s' : Surface), e'.surfaces[id]? = some s' → ¬own .surface id →
    (∃ s, e.surfaces[id]? = some s ∧ ∀ x, s.actsOn o x → s'.actsOn o x) ∨
      ∃ x, x ≠ d ∧ s'.actsOn o x
  newResolvers : ∀ (id : Nat) (r' : Resolver), e'.resolvers[id]? = some r' → ¬own .resolver id →
    (∃ r, e.resolvers[id]? = some r ∧ ∀ x, r.actsOn o x → r'.actsOn o x) ∨
      ∃ x, x ≠ d ∧ r'.actsOn o x

/-- A change that is not the document's. -/
def Foreign (e e' : Editor) : Prop := Apart o d own e → Apart o d own e' ∧ Frame o d own e e'

variable {o d own} {e e' : Editor} {n n' : Part → Nat}

theorem Away.mono {p : Part} {i : Nat} (h : Away own n p i) (hle : ∀ p, n p ≤ n' p) :
    Away own n' p i :=
  ⟨Nat.lt_of_lt_of_le h.1 (hle p), h.2⟩

theorem Lineage.Away.mono {l : Lineage} (h : l.Away own n) (hle : ∀ p, n p ≤ n' p) :
    l.Away own n' := fun i hi => (h i hi).mono hle

theorem Target.Away.mono {t : Target} (h : t.Away d own n) (hle : ∀ p, n p ≤ n' p) :
    t.Away d own n' :=
  ⟨h.doc, h.surface.mono hle, h.lifetime.mono hle⟩

theorem Frame.refl (e : Editor) : Frame o d own e e where
  policy := rfl
  baseTable := rfl
  coordinating := rfl
  keeper := rfl
  count _ := Nat.le_refl _
  slots _ _ := rfl
  surfaces _ _ := rfl
  resolvers _ _ := rfl
  cancelled _ _ := Iff.rfl
  documents := rfl
  surfaceNames _ _ := rfl
  tokenNames _ _ := rfl
  targetNames _ _ := rfl
  jobs := rfl
  deeds := rfl

theorem Elsewhere.refl (e : Editor) : Elsewhere o d own n e e where
  toFrame := Frame.refl e
  newCancelled _ h := Or.inl h
  newDocuments _ _ _ h := Or.inl h
  newSlots _ s' h _ := Or.inl ⟨s', h, rfl, rfl⟩
  newSurfaceNames _ _ _ h := Or.inl h
  newTokenNames _ _ _ h := Or.inl h
  newTargetNames _ _ _ h := Or.inl h
  newJobs _ h := Or.inl h
  newSurfaces _ s' h _ := Or.inl ⟨s', h, fun _ hx => hx⟩
  newResolvers _ r' h _ := Or.inl ⟨r', h, fun _ hx => hx⟩

theorem Elsewhere.foreign (h : Elsewhere o d own e'.count e e') : Foreign o d own e e' := by
  intro hapart
  refine ⟨?_, h.toFrame⟩
  constructor
  · exact fun p i hi => Nat.lt_of_lt_of_le (hapart.bound p i hi) (h.count p)
  · intro n hn
    rcases h.newCancelled n hn with hold | hnew
    · exact Nat.lt_of_lt_of_le (hapart.cancelled n hold) (h.count .scope)
    · exact hnew
  · intro x id hx hid
    rcases h.newDocuments x id hx hid with hold | hnew
    · exact (hapart.documents x id hx hold).mono h.count
    · exact hnew
  · intro id s' hs' hid
    rcases h.newSlots id s' hs' hid with ⟨s, hs, htarget, hresolver⟩ | hnew
    · obtain ⟨ht, hr⟩ := hapart.slots id s hs hid
      rw [htarget, hresolver]
      exact ⟨ht.mono h.count, hr.mono h.count⟩
    · exact hnew
  · intro name id hname hid
    rcases h.newSurfaceNames name id hname hid with hold | hnew
    · exact (hapart.surfaceNames name id hname hold).mono h.count
    · exact hnew
  · intro name t hname ht
    rcases h.newTokenNames name t hname ht with hold | hnew
    · exact (hapart.tokenNames name t hname hold).mono h.count
    · exact hnew
  · intro name t hname ht
    rcases h.newTargetNames name t hname ht with hold | hnew
    · exact (hapart.targetNames name t hname hold).mono h.count
    · exact hnew
  · intro j hj hdoc
    rcases h.newJobs j hj with hold | hnew
    · exact (hapart.jobs j hold hdoc).mono h.count
    · exact hnew
  · intro id s' hs' hid
    rcases h.newSurfaces id s' hs' hid with ⟨s, hs, hacts⟩ | hnew
    · obtain ⟨x, hx, hsx⟩ := hapart.surfaces id s hs hid
      exact ⟨x, hx, hacts x hsx⟩
    · exact hnew
  · intro id r' hr' hid
    rcases h.newResolvers id r' hr' hid with ⟨r, hr, hacts⟩ | hnew
    · obtain ⟨x, hx, hrx⟩ := hapart.resolvers id r hr hid
      exact ⟨x, hx, hacts x hrx⟩
    · exact hnew

theorem Frame.trans {e'' : Editor} (h : Frame o d own e e') (h' : Frame o d own e' e'') :
    Frame o d own e e'' where
  policy := h'.policy.trans h.policy
  baseTable := h'.baseTable.trans h.baseTable
  coordinating := h'.coordinating.trans h.coordinating
  keeper := h'.keeper.trans h.keeper
  count := fun p => Nat.le_trans (h.count p) (h'.count p)
  slots := fun i hi => (h'.slots i hi).trans (h.slots i hi)
  surfaces := fun i hi => (h'.surfaces i hi).trans (h.surfaces i hi)
  resolvers := fun i hi => (h'.resolvers i hi).trans (h.resolvers i hi)
  cancelled := fun i hi => (h'.cancelled i hi).trans (h.cancelled i hi)
  documents := h'.documents.trans h.documents
  surfaceNames := fun n hn => (h'.surfaceNames n hn).trans (h.surfaceNames n hn)
  tokenNames := fun n hn => (h'.tokenNames n hn).trans (h.tokenNames n hn)
  targetNames := fun n hn => (h'.targetNames n hn).trans (h.targetNames n hn)
  jobs := h'.jobs.trans h.jobs
  deeds := h'.deeds.trans h.deeds

instance : IsPreorder Editor (Foreign o d own) where
  refl e := fun h => ⟨h, Frame.refl e⟩
  trans _ _ _ := by
    intro h h' hapart
    obtain ⟨hapart', hframe⟩ := h hapart
    obtain ⟨hapart'', hframe'⟩ := h' hapart'
    exact ⟨hapart'', hframe.trans hframe'⟩

/-- To see that an action is foreign, it may be taken to begin where documents are apart. -/
theorem ensures_foreign {α : Type} {x : EditorM α} (h : Apart o d own e →
    Ensures x e (Foreign o d own e) fun _ e' => Foreign o d own e e') :
    Ensures x e (Foreign o d own e) fun _ e' => Foreign o d own e e' := by
  by_cases hapart : Apart o d own e
  · exact h hapart
  · exact ⟨fun _ _ habs => absurd habs hapart, fun habs => absurd habs hapart⟩

theorem keeps_foreign {α : Type} {x : EditorM α} (h : ∀ e, Apart o d own e →
    Ensures x e (Foreign o d own e) fun _ e' => Foreign o d own e e') :
    Keeps (Foreign o d own) x :=
  fun e => ensures_foreign (h e)

/-! ### Small changes elsewhere -/

/-- A name keeps what it has when one of another owner gets something. -/
theorem get?_set_of_owner {α : Type} (r : Registry String α) {owner : String → DocumentId}
    {name k : String} (h : owner k ≠ owner name) (a : α) : (r.set name a).get? k = r.get? k := by
  have hne : k ≠ name := fun heq => h (congrArg owner heq)
  rw [Registry.get?_set, if_neg hne]

theorem deeds_log (e : Editor) {event : Event} (h : event.deed? d = none) :
    (e.log event).deeds d = e.deeds d := by
  rw [Editor.deeds, Editor.journal_log, List.filterMap_cons_none h]
  rfl

theorem foreign_log (e : Editor) {event : Event} (h : event.deed? d = none) :
    Foreign o d own e (e.log event) :=
  Elsewhere.foreign { Elsewhere.refl e with deeds := deeds_log e h }

/-- Work is on a meter, which tells nothing of a document. -/
theorem foreign_worked (e : Editor) (t : Token) (units : UInt32) :
    Foreign o d own e (e.worked t units) :=
  Elsewhere.foreign { Elsewhere.refl e with count := fun p => by cases p <;> exact Nat.le_refl _ }

theorem foreign_modifySlot (e : Editor) {id : Nat} (h : ¬own .slot id) {f : Slot → Slot}
    (htarget : ∀ s, (f s).target = s.target) (hresolver : ∀ s, (f s).resolver = s.resolver) :
    Foreign o d own e (e.modifySlot id f) := by
  refine Elsewhere.foreign
    { Elsewhere.refl e with
      count := fun p => ?_
      slots := fun i hi => ?_
      newSlots := fun i s' hs' _ => ?_ }
  · cases p <;> simp [Editor.count, Editor.modifySlot]
  · have hne : id ≠ i := fun heq => h (heq ▸ hi)
    rw [Editor.getElem?_modifySlot, if_neg hne]
  · rw [Editor.getElem?_modifySlot] at hs'
    split at hs'
    · obtain ⟨s, hs, rfl⟩ := Option.map_eq_some_iff.mp hs'
      exact Or.inl ⟨s, hs, htarget s, hresolver s⟩
    · exact Or.inl ⟨s', hs', rfl, rfl⟩

theorem foreign_modifySurface (e : Editor) {id : Nat} (h : ¬own .surface id)
    {f : Surface → Surface} (hf : ∀ s x, s.actsOn o x → (f s).actsOn o x) :
    Foreign o d own e (e.modifySurface id f) := by
  refine Elsewhere.foreign
    { Elsewhere.refl e with
      count := fun p => ?_
      surfaces := fun i hi => ?_
      newSurfaces := fun i s' hs' _ => ?_ }
  · cases p <;> simp [Editor.count, Editor.modifySurface]
  · have hne : id ≠ i := fun heq => h (heq ▸ hi)
    simp [Editor.modifySurface, hne]
  · rw [Editor.modifySurface, List.getElem?_modify] at hs'
    obtain ⟨s, hs, rfl⟩ := Option.map_eq_some_iff.mp hs'
    refine Or.inl ⟨s, hs, fun x hx => ?_⟩
    split
    · exact hf s x hx
    · exact hx

theorem foreign_modifyResolver (e : Editor) {id : Nat} (h : ¬own .resolver id)
    {f : Resolver → Resolver} (hf : ∀ r x, r.actsOn o x → (f r).actsOn o x) :
    Foreign o d own e (e.modifyResolver id f) := by
  refine Elsewhere.foreign
    { Elsewhere.refl e with
      count := fun p => ?_
      resolvers := fun i hi => ?_
      newResolvers := fun i r' hr' _ => ?_ }
  · cases p <;> simp [Editor.count, Editor.modifyResolver]
  · have hne : id ≠ i := fun heq => h (heq ▸ hi)
    simp [Editor.modifyResolver, hne]
  · rw [Editor.modifyResolver, List.getElem?_modify] at hr'
    obtain ⟨r, hr, rfl⟩ := Option.map_eq_some_iff.mp hr'
    refine Or.inl ⟨r, hr, fun x hx => ?_⟩
    split
    · exact hf r x hx
    · exact hx

theorem foreign_recordPass (e : Editor) (slot : Option Nat) {r : Request} (h : r.doc ≠ d)
    (out : Outcome) : Foreign o d own e (e.recordPass slot r out) := by
  have hdeed : (Event.ended slot r out).deed? d = none := by simp [Event.deed?, h]
  exact Elsewhere.foreign
    { Elsewhere.refl e with
      deeds := deeds_log { e with metrics := e.metrics.record out .zero } hdeed }

theorem foreign_dispatch (e : Editor) {j : Job} (h : j.target.Away d own e.count) :
    Foreign o d own e (e.dispatch j) := by
  unfold Editor.dispatch
  split
  · exact refl e
  · have hpushed : Foreign o d own e { e with queue := e.queue.push j } := by
      refine Elsewhere.foreign
        { Elsewhere.refl e with
          jobs := ?_
          newJobs := fun j' hj' => ?_ }
      · simp [RenderQueue.push, h.doc]
      · rcases List.mem_append.mp hj' with hold | hnew
        · exact Or.inl hold
        · rw [List.mem_singleton.mp hnew]
          exact Or.inr (h.mono fun p => by cases p <;> exact Nat.le_refl _)
    exact trans_of _ hpushed (foreign_log _ rfl)

theorem foreign_cancel (e : Editor) {l : Lineage} (h : l.Away own e.count) :
    Foreign o d own e { e with tokens := e.tokens.cancel l } := by
  have hown := h l.own List.mem_cons_self
  refine Elsewhere.foreign
    { Elsewhere.refl e with
      count := fun p => by cases p <;> exact Nat.le_refl _
      cancelled := fun i hi => ?_
      newCancelled := fun n hn => ?_ }
  · have hne : i ≠ l.own := fun heq => hown.2 (heq ▸ hi)
    simp [hne]
  · rcases List.mem_cons.mp hn with rfl | hold
    · exact Or.inr hown.1
    · exact Or.inl hold

/-- New scopes belong to nobody yet. -/
theorem foreign_tokens (e : Editor) (ts : Tokens) (hscopes : e.tokens.scopes ≤ ts.scopes)
    (hcancelled : ts.cancelled = e.tokens.cancelled) :
    Foreign o d own e { e with tokens := ts } := by
  refine Elsewhere.foreign
    { Elsewhere.refl e with
      count := fun p => ?_
      cancelled := fun i _ => by rw [hcancelled]
      newCancelled := fun n hn => Or.inl ?_ }
  · cases p <;> simp [Editor.count, hscopes]
  · rwa [← hcancelled]

/-- A fresh token, with a scope of its own or below those of another token that is away. -/
theorem foreign_nameToken (e : Editor) {name : String} (hname : o.token name ≠ d)
    {made : Token × Tokens} {above : List Nat} (hmade : made.1.lineage = ⟨e.tokens.scopes, above⟩)
    (hscopes : made.2.scopes = e.tokens.scopes + 1)
    (hcancelled : made.2.cancelled = e.tokens.cancelled)
    (habove : ∀ n ∈ above, Away own e.count .scope n) :
    Foreign o d own e (e.nameToken name made) := by
  intro hapart
  have hcount : ∀ p, e.count p ≤ (e.nameToken name made).count p := by
    intro p
    cases p <;> simp [Editor.count, Editor.nameToken, hscopes]
  have haway : made.1.lineage.Away own (e.nameToken name made).count := by
    intro n hn
    rw [hmade] at hn
    rcases List.mem_cons.mp hn with rfl | hn
    · refine ⟨?_, fun h => absurd (hapart.bound .scope _ h) (Nat.lt_irrefl _)⟩
      simp [Editor.count, Editor.nameToken, hscopes]
    · exact (habove n hn).mono hcount
  have hnamed : Foreign o d own { e with tokens := made.2 } (e.nameToken name made) := by
    refine Elsewhere.foreign
      { Elsewhere.refl _ with
        tokenNames := fun k hk => get?_set_of_owner _ (fun heq => hname (heq.symm.trans hk)) _
        newTokenNames := fun k t hk ht => ?_ }
    change (e.tokenNames.set name made.1).get? k = _ at ht
    rw [Registry.get?_set] at ht
    split at ht
    · cases ht
      exact Or.inr haway
    · exact Or.inl ht
  exact trans_of (Foreign o d own) (foreign_tokens e made.2 (by omega) hcancelled) hnamed hapart

theorem foreign_nameTarget (e : Editor) {name : String} (hname : o.target name ≠ d)
    {doc : DocumentId} (hdoc : doc ≠ d) {surface : Nat}
    (hsurface : Away own e.count .surface surface) :
    Foreign o d own e (e.nameTarget name doc surface) := by
  intro hapart
  have hscope : ¬own .scope e.tokens.scopes := fun h =>
    absurd (hapart.bound _ _ h) (Nat.lt_irrefl _)
  have hnamed : Foreign o d own { e with tokens := e.tokens.newScope.2 }
      (e.nameTarget name doc surface) := by
    refine Elsewhere.foreign
      { Elsewhere.refl _ with
        targetNames := fun k hk => get?_set_of_owner _ (fun heq => hname (heq.symm.trans hk)) _
        newTargetNames := fun k t hk ht => ?_ }
    change (e.targetNames.set name _).get? k = _ at ht
    rw [Registry.get?_set] at ht
    split at ht
    · cases ht
      refine Or.inr ⟨hdoc, ⟨hsurface.1, hsurface.2⟩, fun i hi => ?_⟩
      rw [List.mem_singleton.mp hi]
      exact ⟨Nat.lt_succ_self _, hscope⟩
    · exact Or.inl ht
  exact trans_of (Foreign o d own) (foreign_tokens e e.tokens.newScope.2 (Nat.le_succ _) rfl) hnamed
    hapart

theorem foreign_declareSurface (e : Editor) {name : String} (hname : o.surface name ≠ d)
    {s : Surface} (hs : ∃ x, x ≠ d ∧ s.actsOn o x) :
    Foreign o d own e (e.declareSurface name s) := by
  intro hapart
  refine Elsewhere.foreign
    { Elsewhere.refl e with
      count := fun p => ?_
      surfaces := fun i hi => ?_
      surfaceNames := fun n hn => ?_
      newSurfaceNames := fun n id hn hid => ?_
      newSurfaces := fun id s' hs' _ => ?_ } hapart
  · cases p <;> simp [Editor.count, Editor.declareSurface]
  · exact List.getElem?_append_left (hapart.bound .surface i hi)
  · exact get?_set_of_owner _ (fun heq => hname (heq.symm.trans hn)) _
  · rw [Editor.declareSurface, Registry.get?_set] at hid
    split at hid
    · cases hid
      refine Or.inr ⟨by simp [Editor.count, Editor.declareSurface], fun h => ?_⟩
      exact absurd (hapart.bound _ _ h) (Nat.lt_irrefl _)
    · exact Or.inl hid
  · rcases Nat.lt_or_ge id e.surfaces.length with hlt | hge
    · rw [Editor.declareSurface, List.getElem?_append_left hlt] at hs'
      exact Or.inl ⟨s', hs', fun _ hx => hx⟩
    · rw [Editor.declareSurface, List.getElem?_append_right hge] at hs'
      cases List.mem_singleton.mp (List.mem_of_getElem? hs')
      exact Or.inr hs

theorem foreign_tearDown (e : Editor) {id : Nat} (h : ¬own .slot id) :
    Foreign o d own e (e.tearDown id) := by
  intro hapart
  unfold Editor.tearDown
  split
  · rename_i s hs
    have hlife := (hapart.slots id s hs h).1.lifetime
    exact trans_of (Foreign o d own) (foreign_cancel e hlife) (foreign_log _ rfl) hapart
  · exact ⟨hapart, Frame.refl e⟩

theorem foreign_addSlot (e : Editor) {doc : DocumentId} (hdoc : doc ≠ d) {surface : Nat}
    (hsurface : Away own e.count .surface surface) {r : Resolver} (hr : ∃ x, x ≠ d ∧ r.actsOn o x) :
    Foreign o d own e (e.addSlot doc surface r) := by
  intro hapart
  have hfresh : ∀ p, ¬own p (e.count p) := fun p h =>
    absurd (hapart.bound p _ h) (Nat.lt_irrefl _)
  have hcount : ∀ p, e.count p ≤ (e.addSlot doc surface r).count p := by
    intro p
    cases p <;> simp [Editor.count, Editor.addSlot]
  refine Elsewhere.foreign
    { Elsewhere.refl e with
      count := hcount
      slots := fun i hi => ?_
      resolvers := fun i hi => ?_
      documents := ?_
      newDocuments := fun x id hx hid => ?_
      newSlots := fun id s' hs' _ => ?_
      newResolvers := fun id r' hr' _ => ?_ } hapart
  · exact List.getElem?_append_left (hapart.bound .slot i hi)
  · exact List.getElem?_append_left (hapart.bound .resolver i hi)
  · rw [Editor.addSlot, Registry.get?_set, if_neg fun heq => hdoc heq.symm]
  · rw [Editor.addSlot, Registry.get?_set] at hid
    split at hid
    · cases hid
      exact Or.inr ⟨by simp [Editor.count, Editor.addSlot], hfresh .slot⟩
    · exact Or.inl hid
  · rcases Nat.lt_or_ge id e.slots.length with hlt | hge
    · rw [Editor.addSlot, List.getElem?_append_left hlt] at hs'
      exact Or.inl ⟨s', hs', rfl, rfl⟩
    · rw [Editor.addSlot, List.getElem?_append_right hge] at hs'
      cases List.mem_singleton.mp (List.mem_of_getElem? hs')
      refine Or.inr ⟨⟨hdoc, hsurface.mono hcount, fun n hn => ?_⟩, ?_, hfresh .resolver⟩
      · rw [List.mem_singleton.mp hn]
        exact ⟨Nat.lt_succ_self _, hfresh .scope⟩
      · simp [Editor.count, Editor.addSlot]
  · rcases Nat.lt_or_ge id e.resolvers.length with hlt | hge
    · rw [Editor.addSlot, List.getElem?_append_left hlt] at hr'
      exact Or.inl ⟨r', hr', fun _ hx => hx⟩
    · rw [Editor.addSlot, List.getElem?_append_right hge] at hr'
      cases List.mem_singleton.mp (List.mem_of_getElem? hr')
      exact Or.inr hr

theorem foreign_install (e : Editor) {doc : DocumentId} (hdoc : doc ≠ d) {surface : Nat}
    (hsurface : Away own e.count .surface surface) {r : Resolver} (hr : ∃ x, x ≠ d ∧ r.actsOn o x) :
    Foreign o d own e (e.install doc surface r) := by
  intro hapart
  unfold Editor.install
  split
  · rename_i id hid
    exact trans_of (Foreign o d own) (foreign_addSlot e hdoc hsurface hr)
      (foreign_tearDown _ (hapart.documents doc id hdoc hid).2) hapart
  · exact foreign_addSlot e hdoc hsurface hr hapart

theorem foreign_uninstall (e : Editor) {doc : DocumentId} (hdoc : doc ≠ d) :
    Foreign o d own e (e.uninstall doc).2 := by
  intro hapart
  unfold Editor.uninstall
  split
  · rename_i id hid
    have herase : Foreign o d own e { e with documents := e.documents.erase doc } := by
      refine Elsewhere.foreign
        { Elsewhere.refl e with
          documents := ?_
          newDocuments := fun x id' hx hid' => ?_ }
      · rw [Registry.get?_erase, if_neg fun heq => hdoc heq.symm]
      · rw [Registry.get?_erase] at hid'
        split at hid'
        · cases hid'
        · exact Or.inl hid'
    exact trans_of (Foreign o d own) herase
      (foreign_tearDown _ (hapart.documents doc id hdoc hid).2) hapart
  · exact ⟨hapart, Frame.refl e⟩

end Highlighting
