/-
Changes of the document in two related editors.

Whatever the document does in both editors at once keeps them related: its slots,
surfaces and resolvers change alike, its scopes are cancelled, its changes are queued
and have their turn.  What is new in both is linked, and then it can be given a name.
-/
import Highlighting.Proofs.Documents.Alike
import Highlighting.Editor.Session

namespace Highlighting

variable {o : Ownership} {d : DocumentId} {ρ : Link} {e f e' f' : Editor}

/-! ### Small changes in both -/

theorem rel_map {α β : Type} {R : α → β → Prop} {g : α → α} {g' : β → β}
    (hg : ∀ a b, R a b → R (g a) (g' b)) {x : Option α} {y : Option β} (hxy : Option.Rel R x y) :
    Option.Rel R (x.map g) (y.map g') := by
  cases hxy with
  | some hab => exact .some (hg _ _ hab)
  | none => exact .none

theorem modify_alike {α : Type} {P : α → Prop} {g : α → α} (hg : ∀ a, P a → P (g a))
    {xs ys : List α} {i j k l : Nat} (hiff : i = k ↔ j = l)
    (h : ys[l]? = xs[k]? ∧ ∀ a, xs[k]? = some a → P a) :
    (ys.modify j g)[l]? = (xs.modify i g)[k]? ∧ ∀ a, (xs.modify i g)[k]? = some a → P a := by
  simp only [List.getElem?_modify]
  refine ⟨by simp only [h.1, hiff], fun a ha => ?_⟩
  obtain ⟨b, hb, rfl⟩ := Option.map_eq_some_iff.mp ha
  have hP := h.2 b hb
  split
  · exact hg b hP
  · exact hP

namespace Related

theorem log (h : Related o d ρ e f) {event event' : Event}
    (heq : event'.deed? d = event.deed? d) : Related o d ρ (e.log event) (f.log event') := by
  refine { h with deeds := ?_, apart := { h.apart with } }
  simp only [Editor.deeds, Editor.journal_log, List.filterMap_cons, heq]
  have hdeeds : f.journal.filterMap (Event.deed? d) = e.journal.filterMap (Event.deed? d) := h.deeds
  rw [hdeeds]

/-- The metrics belong to no document. -/
theorem recordPass (h : Related o d ρ e f) (slot slot' : Option Nat) {r r' : Request}
    (hdoc : r.doc = d) (hdoc' : r'.doc = d) (out : Outcome) :
    Related o d ρ (e.recordPass slot r out) (f.recordPass slot' r' out) := by
  have hmetrics : Related o d ρ { e with metrics := e.metrics.record out .zero }
      { f with metrics := f.metrics.record out .zero } := { h with apart := { h.apart with } }
  refine hmetrics.log ?_
  simp [Event.deed?, hdoc, hdoc']

/-- Nor does the work done on a token. -/
theorem worked (h : Related o d ρ e f) (t t' : Token) (units : UInt32) :
    Related o d ρ (e.worked t units) (f.worked t' units) :=
  { h with apart := { h.apart with } }

theorem modifySurface (h : Related o d ρ e f) {i j : Nat} (hij : ρ .surface i j)
    {g : Surface → Surface} (hg : ∀ s, s.actsOn o d → (g s).actsOn o d) :
    Related o d ρ (e.modifySurface i g) (f.modifySurface j g) := by
  have hcount : ∀ (e : Editor) i p, (e.modifySurface i g).count p = e.count p := by
    intro e i p
    cases p <;> simp [Editor.count, Editor.modifySurface]
  refine
    { h with
      bound := fun p k l hkl => ?_
      parts := fun p k l hkl => ?_
      apart := Domestic.apart
        { h.apart.domestic with
          count := fun p => Nat.le_of_eq (hcount e i p).symm
          surfaces := fun k hk => ?_ } h.apart }
  · rw [hcount, hcount]
    exact h.bound p k l hkl
  · have hlike := h.parts p k l hkl
    cases p with
    | slot | resolver | scope => exact hlike
    | surface =>
        exact modify_alike hg (h.unique _ _ _ _ _ hij hkl) hlike
  · have hne : i ≠ k := fun heq => hk ⟨j, heq ▸ hij⟩
    simp [Editor.modifySurface, hne]

theorem modifyResolver (h : Related o d ρ e f) {i j : Nat} (hij : ρ .resolver i j)
    {g : Resolver → Resolver} (hg : ∀ r, r.actsOn o d → (g r).actsOn o d) :
    Related o d ρ (e.modifyResolver i g) (f.modifyResolver j g) := by
  have hcount : ∀ (e : Editor) i p, (e.modifyResolver i g).count p = e.count p := by
    intro e i p
    cases p <;> simp [Editor.count, Editor.modifyResolver]
  refine
    { h with
      bound := fun p k l hkl => ?_
      parts := fun p k l hkl => ?_
      apart := Domestic.apart
        { h.apart.domestic with
          count := fun p => Nat.le_of_eq (hcount e i p).symm
          resolvers := fun k hk => ?_ } h.apart }
  · rw [hcount, hcount]
    exact h.bound p k l hkl
  · have hlike := h.parts p k l hkl
    cases p with
    | slot | surface | scope => exact hlike
    | resolver =>
        exact modify_alike hg (h.unique _ _ _ _ _ hij hkl) hlike
  · have hne : i ≠ k := fun heq => hk ⟨j, heq ▸ hij⟩
    simp [Editor.modifyResolver, hne]

theorem modifySlot (h : Related o d ρ e f) {i j : Nat} (hij : ρ .slot i j) {g g' : Slot → Slot}
    (hg : ∀ s t, s.Like d ρ t → (g s).Like d ρ (g' t)) :
    Related o d ρ (e.modifySlot i g) (f.modifySlot j g') := by
  have hcount : ∀ (e : Editor) i g p, (e.modifySlot i g).count p = e.count p := by
    intro e i g p
    cases p <;> simp [Editor.count, Editor.modifySlot]
  refine
    { h with
      bound := fun p k l hkl => ?_
      parts := fun p k l hkl => ?_
      apart := Domestic.apart
        { h.apart.domestic with
          count := fun p => Nat.le_of_eq (hcount e i g p).symm
          slots := fun k hk => ?_ } h.apart }
  · rw [hcount, hcount]
    exact h.bound p k l hkl
  · have hlike := h.parts p k l hkl
    cases p with
    | surface | resolver | scope => exact hlike
    | slot =>
        rw [Part.Like, Editor.getElem?_modifySlot, Editor.getElem?_modifySlot,
          if_congr (h.unique _ _ _ _ _ hij hkl) rfl rfl]
        rw [Part.Like] at hlike
        split
        · exact rel_map hg hlike
        · exact hlike
  · have hne : i ≠ k := fun heq => hk ⟨j, heq ▸ hij⟩
    rw [Editor.getElem?_modifySlot, if_neg hne]

theorem cancel (h : Related o d ρ e f) {l m : Lineage} (hl : l.Like ρ m) :
    Related o d ρ { e with tokens := e.tokens.cancel l }
      { f with tokens := f.tokens.cancel m } := by
  have hown : ρ .scope l.own m.own := (List.forall₂_cons.mp hl).1
  obtain ⟨hlt, hlt'⟩ := h.bound _ _ _ hown
  refine
    { h with
      cancelled := fun n hn => ?_
      parts := fun p i j hij => ?_
      apart := Domestic.apart { h.apart.domestic with cancelled := fun n hn => ?_ } h.apart }
  · rcases List.mem_cons.mp hn with rfl | hold
    · exact hlt'
    · exact h.cancelled n hold
  · have hlike := h.parts p i j hij
    cases p with
    | slot | surface | resolver => exact hlike
    | scope =>
        have hiff := h.unique _ _ _ _ _ hij hown
        simp only [Part.Like] at hlike ⊢
        simp only [Tokens.cancelled_cancel, List.mem_cons, hlike, hiff]
  · rcases List.mem_cons.mp hn with rfl | hold
    · exact hlt
    · exact h.apart.cancelled n hold

/-! ### The queue -/

theorem dispatch (h : Related o d ρ e f) {j k : Job} (hjk : j.Like d ρ k) :
    Related o d ρ (e.dispatch j) (f.dispatch k) := by
  have hclosed : f.queue.isClosed = e.queue.isClosed := by
    rw [RenderQueue.isClosed, RenderQueue.isClosed, h.keeper]
  unfold Editor.dispatch
  rw [hclosed]
  split
  · exact h
  · have hpushed : Related o d ρ { e with queue := e.queue.push j }
        { f with queue := f.queue.push k } := by
      refine
        { h with
          jobs := ?_
          apart := Domestic.apart { h.apart.domestic with jobs := fun i hi hdoc => ?_ } h.apart }
      · have hlast : [j].filter (·.target.doc = d) = [j] := by simp [hjk.target.doc]
        rw [RenderQueue.push, RenderQueue.push, List.filter_append, hlast]
        exact List.rel_append h.jobs (.cons hjk .nil)
      · rcases List.mem_append.mp hi with hold | hnew
        · exact hold
        · rw [List.mem_singleton.mp hnew] at hdoc
          exact absurd hjk.target.doc hdoc
    exact hpushed.log rfl

/-- The queue of the document alone is empty when there is nothing in the other. -/
theorem jobs_nil (h : Related o d ρ e f) (he : e.queue.jobs = []) : f.queue.jobs = [] := by
  have hjobs := h.jobs
  rw [he] at hjobs
  exact List.forall₂_nil_left_iff.mp hjobs

/-- The turn of a change of the document has come in both. -/
theorem jobs_cons (h : Related o d ρ e f) {j : Job} {rest : List Job}
    (he : e.queue.jobs = j :: rest) (hdoc : j.target.doc = d) :
    ∃ k rest', f.queue.jobs = k :: rest' ∧ j.Like d ρ k ∧
      Related o d ρ (e.take j rest) (f.take k rest') := by
  have hjobs := h.jobs
  have hfirst : (j :: rest).filter (·.target.doc = d) = j :: rest.filter (·.target.doc = d) := by
    simp [hdoc]
  rw [he, hfirst] at hjobs
  obtain ⟨k, rest', hjk, hrest, hf⟩ := List.forall₂_cons_left_iff.mp hjobs
  refine ⟨k, rest', hf, hjk, ?_⟩
  have htaken : Related o d ρ { e with queue := { e.queue with jobs := rest } }
      { f with queue := { f.queue with jobs := rest' } } :=
    { h with
      jobs := hrest
      apart := Domestic.apart
        { h.apart.domestic with jobs := fun i hi _ => he ▸ List.mem_cons_of_mem j hi } h.apart }
  exact htaken.log rfl

/-- The turn of a change of another document has come. -/
theorem take_foreign (h : Related o d ρ e f) {j : Job} {rest : List Job}
    (he : e.queue.jobs = j :: rest) (hdoc : j.target.doc ≠ d) :
    Related o d ρ (e.take j rest) f := by
  refine h.foreign (Elsewhere.foreign
    { Elsewhere.refl e with
      jobs := ?_
      newJobs := fun i hi => Or.inl ?_ })
  · show rest.filter (·.target.doc = d) = _
    rw [he, List.filter_cons_of_neg (by simpa using hdoc)]
  · rw [he]
    exact List.mem_cons_of_mem j hi

theorem keep (h : Related o d ρ e f) (k : Keeper) : Related o d ρ (e.keep k) (f.keep k) :=
  { h with keeper := rfl, apart := { h.apart with } }

theorem dropQueue (h : Related o d ρ e f) :
    Related o d ρ { e with queue := .dropped } { f with queue := .dropped } :=
  { h with
    keeper := rfl
    jobs := .nil
    apart := Domestic.apart
      { h.apart.domestic with jobs := fun _ hi _ => absurd hi List.not_mem_nil } h.apart }

theorem letGo (h : Related o d ρ e f) :
    Related o d ρ { e with coordinating := false } { f with coordinating := false } :=
  { h with coordinating := rfl, apart := { h.apart with } }

end Related

/-! ### New parts in both -/

theorem getElem?_concat_of_ne {α : Type} {xs : List α} {i : Nat} (h : i ≠ xs.length) (a : α) :
    (xs ++ [a])[i]? = xs[i]? := by
  rcases Nat.lt_or_gt_of_ne h with hlt | hgt
  · exact List.getElem?_append_left hlt
  · rw [List.getElem?_eq_none (by simp; omega), List.getElem?_eq_none (by omega)]

section

variable {p : Part} {i j : Nat}

/-- The document comes to own the part that is new. -/
theorem Domestic.apart_join (h : Domestic o d (ρ.join p (e.count p) j).Has e e')
    (hapart : Apart o d ρ.Has e) (hcount : e'.count p = e.count p + 1) :
    Apart o d (ρ.join p (e.count p) j).Has e' := by
  refine h.apart_of_le hapart (fun q k hk => Link.has_join.mpr (Or.inl hk)) fun q k hk => ?_
  rcases Link.has_join.mp hk with hold | ⟨rfl, rfl⟩
  · exact Or.inl hold
  · exact Or.inr ⟨Nat.le_refl _, by omega⟩

theorem Link.ne_of_not_has {q : Part} {k : Nat} (h : ¬(ρ.join q i j).Has q k) : k ≠ i := fun heq =>
  h (Link.has_join.mpr (Or.inr ⟨rfl, heq⟩))

end

namespace Related

/-- What is new in both, and alike, is linked. -/
theorem alloc (h : Related o d ρ e f) {p : Part} (he : Frame o d ρ.Has e e')
    (hf : Frame o d ρ.Of f f') (hcount : e'.count p = e.count p + 1)
    (hcount' : f'.count p = f.count p + 1)
    (hcancelled : f'.tokens.cancelled = f.tokens.cancelled)
    (hjobs : f'.queue.jobs = f.queue.jobs)
    (hlike : Part.Like o d ρ e' f' p (e.count p) (f.count p))
    (hothers : Domestic o d (ρ.join p (e.count p) (f.count p)).Has e e') :
    Related o d (ρ.join p (e.count p) (f.count p)) e' f' := by
  have hbound : ∀ n ∈ f'.tokens.cancelled, n < f'.tokens.scopes := by
    intro n hn
    rw [hcancelled] at hn
    exact Nat.lt_of_lt_of_le (h.cancelled n hn) (hf.count .scope)
  refine ⟨(h.toAlike.frame he hf hbound hjobs).join (by omega) (by omega) ?_ ?_ hlike,
    hothers.apart_join h.apart hcount⟩
  · intro hold
    exact absurd (h.apart.bound p _ hold) (Nat.lt_irrefl _)
  · intro hold
    exact absurd (h.lt_count hold) (Nat.lt_irrefl _)

theorem addScope (h : Related o d ρ e f) (ts ts' : Tokens)
    (hscopes : ts.scopes = e.tokens.scopes + 1) (hscopes' : ts'.scopes = f.tokens.scopes + 1)
    (hcancelled : ts.cancelled = e.tokens.cancelled)
    (hcancelled' : ts'.cancelled = f.tokens.cancelled) :
    Related o d (ρ.join .scope e.tokens.scopes f.tokens.scopes) { e with tokens := ts }
      { f with tokens := ts' } := by
  have hframe : ∀ (own : Part → Nat → Prop) (e : Editor) (ts : Tokens),
      ts.scopes = e.tokens.scopes + 1 → ts.cancelled = e.tokens.cancelled →
      Frame o d own e { e with tokens := ts } := by
    intro own e ts hscopes hcancelled
    refine { Frame.refl e with count := fun p => ?_, cancelled := fun i _ => by rw [hcancelled] }
    cases p <;> simp [Editor.count, hscopes]
  have he := hframe ρ.Has e ts hscopes hcancelled
  refine h.alloc (p := .scope) he (hframe _ f ts' hscopes' hcancelled') hscopes hscopes' hcancelled'
    rfl ?_ { h.apart.domestic with count := he.count, cancelled := fun n hn => ?_ }
  · show _ ∈ ts.cancelled ↔ _ ∈ ts'.cancelled
    rw [hcancelled, hcancelled']
    exact iff_of_false (fun hn => absurd (h.apart.cancelled _ hn) (Nat.lt_irrefl _))
      fun hn => absurd (h.cancelled _ hn) (Nat.lt_irrefl _)
  · show n < ts.scopes
    have hold := h.apart.cancelled n (by rwa [← hcancelled])
    omega

theorem addSurface (h : Related o d ρ e f) {s : Surface} (hs : s.actsOn o d) :
    Related o d (ρ.join .surface e.surfaces.length f.surfaces.length)
      { e with surfaces := e.surfaces ++ [s] } { f with surfaces := f.surfaces ++ [s] } := by
  have hframe : ∀ (own : Part → Nat → Prop) (e : Editor),
      (∀ i, own .surface i → i < e.surfaces.length) →
      Frame o d own e { e with surfaces := e.surfaces ++ [s] } := by
    intro own e hbound
    refine
      { Frame.refl e with
        count := fun p => ?_
        surfaces := fun i hi => List.getElem?_append_left (hbound i hi) }
    cases p <;> simp [Editor.count]
  have he := hframe ρ.Has e (h.apart.bound .surface)
  have hf := hframe ρ.Of f fun _ hj => h.lt_count hj
  have hcount : ∀ e : Editor,
      Editor.count { e with surfaces := e.surfaces ++ [s] } .surface = e.count .surface + 1 :=
    fun e => List.length_append
  refine h.alloc (p := .surface) he hf (hcount e) (hcount f) rfl rfl ?_
    { h.apart.domestic with count := he.count, surfaces := fun i hi => ?_ }
  · simp [Part.Like, Editor.count, hs]
  · exact getElem?_concat_of_ne (Link.ne_of_not_has hi) s

theorem addResolver (h : Related o d ρ e f) {r : Resolver} (hr : r.actsOn o d) :
    Related o d (ρ.join .resolver e.resolvers.length f.resolvers.length)
      { e with resolvers := e.resolvers ++ [r] } { f with resolvers := f.resolvers ++ [r] } := by
  have hframe : ∀ (own : Part → Nat → Prop) (e : Editor),
      (∀ i, own .resolver i → i < e.resolvers.length) →
      Frame o d own e { e with resolvers := e.resolvers ++ [r] } := by
    intro own e hbound
    refine
      { Frame.refl e with
        count := fun p => ?_
        resolvers := fun i hi => List.getElem?_append_left (hbound i hi) }
    cases p <;> simp [Editor.count]
  have he := hframe ρ.Has e (h.apart.bound .resolver)
  have hf := hframe ρ.Of f fun _ hj => h.lt_count hj
  have hcount : ∀ e : Editor,
      Editor.count { e with resolvers := e.resolvers ++ [r] } .resolver = e.count .resolver + 1 :=
    fun e => List.length_append
  refine h.alloc (p := .resolver) he hf (hcount e) (hcount f) rfl rfl ?_
    { h.apart.domestic with count := he.count, resolvers := fun i hi => ?_ }
  · simp [Part.Like, Editor.count, hr]
  · exact getElem?_concat_of_ne (Link.ne_of_not_has hi) r

theorem addSlot (h : Related o d ρ e f) {s t : Slot} (hst : s.Like d ρ t) :
    Related o d (ρ.join .slot e.slots.length f.slots.length)
      { e with slots := e.slots ++ [s] } { f with slots := f.slots ++ [t] } := by
  have hframe : ∀ (own : Part → Nat → Prop) (e : Editor) (s : Slot),
      (∀ i, own .slot i → i < e.slots.length) →
      Frame o d own e { e with slots := e.slots ++ [s] } := by
    intro own e s hbound
    refine
      { Frame.refl e with
        count := fun p => ?_
        slots := fun i hi => List.getElem?_append_left (hbound i hi) }
    cases p <;> simp [Editor.count]
  have he := hframe ρ.Has e s (h.apart.bound .slot)
  have hf := hframe ρ.Of f t fun _ hj => h.lt_count hj
  have hcount : ∀ (e : Editor) (s : Slot),
      Editor.count { e with slots := e.slots ++ [s] } .slot = e.count .slot + 1 :=
    fun e s => List.length_append
  refine h.alloc (p := .slot) he hf (hcount e s) (hcount f t) rfl rfl ?_
    { h.apart.domestic with count := he.count, slots := fun i hi => ?_ }
  · simp only [Part.Like, Editor.count, List.getElem?_concat_length]
    exact .some hst
  · exact getElem?_concat_of_ne (Link.ne_of_not_has hi) s

/-! ### Names -/

theorem setDocument (h : Related o d ρ e f) {i j : Nat} (hij : ρ .slot i j) :
    Related o d ρ { e with documents := e.documents.set d i }
      { f with documents := f.documents.set d j } := by
  refine
    { h with
      documents := ?_
      apart := Domestic.apart { h.apart.domestic with documents := fun x hx => ?_ } h.apart }
  · rw [Registry.get?_set, Registry.get?_set, if_pos rfl, if_pos rfl]
    exact .some hij
  · rw [Registry.get?_set, if_neg hx]

theorem eraseDocument (h : Related o d ρ e f) :
    Related o d ρ { e with documents := e.documents.erase d }
      { f with documents := f.documents.erase d } := by
  refine
    { h with
      documents := ?_
      apart := Domestic.apart { h.apart.domestic with documents := fun x hx => ?_ } h.apart }
  · rw [Registry.get?_erase, Registry.get?_erase, if_pos rfl, if_pos rfl]
    exact .none
  · rw [Registry.get?_erase, if_neg hx]

end Related

theorem rel_get?_set {α : Type} {R : α → α → Prop} {r r' : Registry String α} {name n : String}
    {a b : α} (hab : R a b) (h : Option.Rel R (r.get? n) (r'.get? n)) :
    Option.Rel R ((r.set name a).get? n) ((r'.set name b).get? n) := by
  rw [Registry.get?_set, Registry.get?_set]
  split
  · exact .some hab
  · exact h

namespace Related

theorem setSurfaceName (h : Related o d ρ e f) {name : String} (hname : o.surface name = d)
    {i j : Nat} (hij : ρ .surface i j) :
    Related o d ρ { e with surfaceNames := e.surfaceNames.set name i }
      { f with surfaceNames := f.surfaceNames.set name j } :=
  { h with
    surfaceNames := fun n hn => rel_get?_set hij (h.surfaceNames n hn)
    apart := Domestic.apart
      { h.apart.domestic with
        surfaceNames := fun _ hn => get?_set_of_owner _ (fun heq => hn (heq.trans hname)) i }
      h.apart }

theorem setTokenName (h : Related o d ρ e f) {name : String} (hname : o.token name = d)
    {t u : Token} (htu : t.Like ρ u) :
    Related o d ρ { e with tokenNames := e.tokenNames.set name t }
      { f with tokenNames := f.tokenNames.set name u } :=
  { h with
    tokenNames := fun n hn => rel_get?_set htu (h.tokenNames n hn)
    apart := Domestic.apart
      { h.apart.domestic with
        tokenNames := fun _ hn => get?_set_of_owner _ (fun heq => hn (heq.trans hname)) t }
      h.apart }

theorem setTargetName (h : Related o d ρ e f) {name : String} (hname : o.target name = d)
    {t u : Target} (htu : t.Like d ρ u) :
    Related o d ρ { e with targetNames := e.targetNames.set name t }
      { f with targetNames := f.targetNames.set name u } :=
  { h with
    targetNames := fun n hn => rel_get?_set htu (h.targetNames n hn)
    apart := Domestic.apart
      { h.apart.domestic with
        targetNames := fun _ hn => get?_set_of_owner _ (fun heq => hn (heq.trans hname)) t }
      h.apart }

end Related

/-! ### Installing and uninstalling -/

theorem Related.declareSurface (h : Related o d ρ e f) {name : String} (hname : o.surface name = d)
    {s : Surface} (hs : s.actsOn o d) :
    ∃ ρ', ρ ≤ ρ' ∧ Related o d ρ' (e.declareSurface name s) (f.declareSurface name s) :=
  ⟨_, Link.le_join, (h.addSurface hs).setSurfaceName hname Link.join_self⟩

/-- A fresh token in both, with a scope of its own or below those of another token. -/
theorem Related.nameToken (h : Related o d ρ e f) {name : String} (hname : o.token name = d)
    (made made' : Token × Tokens) {above above' : List Nat}
    (hmade : made.1.lineage = ⟨e.tokens.scopes, above⟩)
    (hmade' : made'.1.lineage = ⟨f.tokens.scopes, above'⟩)
    (hscopes : made.2.scopes = e.tokens.scopes + 1)
    (hscopes' : made'.2.scopes = f.tokens.scopes + 1)
    (hcancelled : made.2.cancelled = e.tokens.cancelled)
    (hcancelled' : made'.2.cancelled = f.tokens.cancelled)
    (habove : List.Forall₂ (ρ .scope) above above') :
    ∃ ρ', ρ ≤ ρ' ∧ Related o d ρ' (e.nameToken name made) (f.nameToken name made') := by
  have hlike : made.1.Like (ρ.join .scope e.tokens.scopes f.tokens.scopes) made'.1 := by
    rw [Token.Like, Lineage.Like, hmade, hmade']
    exact .cons Link.join_self (List.Forall₂.imp (Link.le_join .scope) habove)
  have hscope := h.addScope made.2 made'.2 hscopes hscopes' hcancelled hcancelled'
  exact ⟨_, Link.le_join, hscope.setTokenName hname hlike⟩

theorem Related.nameTarget (h : Related o d ρ e f) {name : String} (hname : o.target name = d)
    {i j : Nat} (hij : ρ .surface i j) :
    ∃ ρ', ρ ≤ ρ' ∧ Related o d ρ' (e.nameTarget name d i) (f.nameTarget name d j) := by
  have hscope := h.addScope e.tokens.newScope.2 f.tokens.newScope.2 rfl rfl rfl rfl
  exact ⟨_, Link.le_join, hscope.setTargetName hname
    ⟨rfl, rfl, Link.le_join _ _ _ hij, .cons Link.join_self .nil⟩⟩

theorem Related.tearDown (h : Related o d ρ e f) {i j : Nat} (hij : ρ .slot i j) :
    Related o d ρ (e.tearDown i) (f.tearDown j) := by
  have hslots : Option.Rel (Slot.Like d ρ) e.slots[i]? f.slots[j]? := h.parts .slot i j hij
  unfold Editor.tearDown
  generalize e.slots[i]? = s at hslots ⊢
  generalize f.slots[j]? = t at hslots ⊢
  cases hslots with
  | none => exact h
  | some hst => exact (h.cancel hst.target.lifetime).log rfl

/-- A fresh slot in both: first its scope and its resolver, then the slot with them. -/
theorem Related.newSlot (h : Related o d ρ e f) {i j : Nat} (hij : ρ .surface i j) {r : Resolver}
    (hr : r.actsOn o d) :
    ∃ ρ', ρ ≤ ρ' ∧ Related o d ρ' (e.addSlot d i r) (f.addSlot d j r) := by
  have hscope := h.addScope e.tokens.newScope.2 f.tokens.newScope.2 rfl rfl rfl rfl
  have hresolver := hscope.addResolver hr
  have hslot := hresolver.addSlot
    (s := { target := ⟨d, i, e.tokens.newScope.1⟩, resolver := e.resolvers.length })
    (t := { target := ⟨d, j, f.tokens.newScope.1⟩, resolver := f.resolvers.length })
    ⟨⟨rfl, rfl, Or.inl (Or.inl hij), .cons (Or.inl Link.join_self) .nil⟩, Link.join_self, rfl, rfl⟩
  exact ⟨_, Link.le_join.trans (Link.le_join.trans Link.le_join), hslot.setDocument Link.join_self⟩

theorem Related.install (h : Related o d ρ e f) {i j : Nat} (hij : ρ .surface i j) {r : Resolver}
    (hr : r.actsOn o d) :
    ∃ ρ', ρ ≤ ρ' ∧ Related o d ρ' (e.install d i r) (f.install d j r) := by
  obtain ⟨ρ', hle, hnew⟩ := h.newSlot hij hr
  have hdocuments := h.documents
  unfold Editor.install
  generalize e.documents.get? d = x at hdocuments ⊢
  generalize f.documents.get? d = y at hdocuments ⊢
  cases hdocuments with
  | none => exact ⟨ρ', hle, hnew⟩
  | some hold => exact ⟨ρ', hle, hnew.tearDown (hle _ _ _ hold)⟩

theorem Related.uninstall (h : Related o d ρ e f) :
    Related o d ρ (e.uninstall d).2 (f.uninstall d).2 ∧
      (f.uninstall d).1 = (e.uninstall d).1 := by
  have hdocuments := h.documents
  unfold Editor.uninstall
  generalize e.documents.get? d = x at hdocuments ⊢
  generalize f.documents.get? d = y at hdocuments ⊢
  cases hdocuments with
  | none => exact ⟨h, rfl⟩
  | some hold => exact ⟨h.eraseDocument.tearDown hold, rfl⟩

/-! ### What can be read -/

namespace Related

theorem isCancelled (h : Related o d ρ e f) {l m : Lineage} (hl : l.Like ρ m) :
    f.tokens.isCancelled m = e.tokens.isCancelled l := by
  have hany : ∀ is js, List.Forall₂ (ρ .scope) is js →
      js.any f.tokens.cancelled.contains = is.any e.tokens.cancelled.contains := by
    intro is js hlinked
    induction hlinked with
    | nil => rfl
    | cons hij _ ih =>
        have hiff : _ ∈ e.tokens.cancelled ↔ _ ∈ f.tokens.cancelled := h.parts .scope _ _ hij
        simp only [List.any_cons, ih, List.contains_eq_mem, hiff]
  exact hany _ _ hl

theorem isTornDown (h : Related o d ρ e f) {t u : Target} (htu : t.Like d ρ u) :
    f.isTornDown u = e.isTornDown t := h.isCancelled htu.lifetime

/-- The slot of the document in the one editor and in the other. -/
theorem slot? (h : Related o d ρ e f) :
    Option.Rel (fun a b => ρ .slot a.1 b.1 ∧ a.2.Like d ρ b.2) (e.slot? d) (f.slot? d) := by
  have hdocuments := h.documents
  unfold Editor.slot?
  generalize e.documents.get? d = x at hdocuments ⊢
  generalize f.documents.get? d = y at hdocuments ⊢
  cases hdocuments with
  | none => exact .none
  | @some i j hij =>
      have hslots : Option.Rel (Slot.Like d ρ) e.slots[i]? f.slots[j]? := h.parts .slot i j hij
      simp only [Option.bind_eq_bind, Option.bind_some, Option.pure_def]
      generalize e.slots[i]? = s at hslots ⊢
      generalize f.slots[j]? = t at hslots ⊢
      cases hslots with
      | none => exact .none
      | some hst => exact .some ⟨hij, hst⟩

end Related

theorem rel_map_eq {α β γ : Type} {R : α → β → Prop} {g : α → γ} {g' : β → γ}
    (hg : ∀ a b, R a b → g' b = g a) {x : Option α} {y : Option β} (hxy : Option.Rel R x y) :
    y.map g' = x.map g := by
  cases hxy with
  | some hab => exact congrArg some (hg _ _ hab)
  | none => rfl

/-- **What can be read of the document is the same.** -/
theorem Related.sight (h : Related o d ρ e f) : f.sight d = e.sight d := by
  have hinstalled : f.documents.contains d = e.documents.contains d := by
    have hdocuments := rel_map_eq (g := fun _ => ()) (fun _ _ _ => rfl) h.documents
    rw [Registry.contains, Registry.contains, ← Option.isSome_map, hdocuments, Option.isSome_map]
  have hpublished : f.published? d = e.published? d :=
    rel_map_eq (fun _ _ hst => hst.2.snapshot) h.slot?
  have hrunning : (f.slot? d).map (fun s => s.2.gate.busy) =
      (e.slot? d).map fun s => s.2.gate.busy :=
    rel_map_eq (fun _ _ hst => congrArg Gate.busy hst.2.gate) h.slot?
  rw [Editor.sight, Editor.sight, hinstalled, hpublished, hrunning]

end Highlighting
