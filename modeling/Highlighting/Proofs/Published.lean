/-
What the highlights of a document are, at any moment.

The highlights of a slot are never set to what a pass found the tree should have.
They are what was shown before, with some taken off and others added, sorted anew.
Still they always look like what the last pass that succeeded on the slot found,
in the same order: every such pass starts from highlights in strict order, and the
change it makes leads to highlights that look exactly like the wanted ones.

What a pass found are the marks of its tree in the styles it was told when it asked.
Tables may be swapped at any time, in the middle of a pass, too, so what it found
cannot be had from the tree and a table afterwards.  The journal keeps it.
-/
import Highlighting.Proofs.Editor.Session
import Highlighting.Proofs.Editor.Settle
import Mathlib

namespace Highlighting

/-- The request of the last pass that succeeded on a slot. -/
def lastSuccess (id : Nat) (journal : List Event) : Option Request :=
  journal.findSome? (Event.successOn id)

/-- The candidates of the last pass that succeeded on a slot. -/
def lastWanted (id : Nat) (journal : List Event) : Option (List Highlight) :=
  journal.findSome? (Event.wantedOn id)

theorem findSome?_append_of_none {α β : Type} {f : α → Option β} {l : List α}
    (h : ∀ a ∈ l, f a = none) (l' : List α) : (l ++ l').findSome? f = l'.findSome? f := by
  rw [List.findSome?_append, List.findSome?_eq_none_iff.mpr h]
  rfl

/-- Where no pass succeeds, the last one that did stays the last. -/
theorem lastSuccess_append {evs : List Event} (h : ∀ ev ∈ evs, ev.isSuccess = false) (id : Nat)
    (past : List Event) : lastSuccess id (evs ++ past) = lastSuccess id past ∧
      lastWanted id (evs ++ past) = lastWanted id past :=
  ⟨findSome?_append_of_none (fun ev hev => Event.successOn_eq_none (h ev hev) id) past,
    findSome?_append_of_none (fun ev hev => Event.wantedOn_eq_none (h ev hev) id) past⟩

/-- A slot shows what the last pass that succeeded on it found, and nothing before the first. -/
structure Shows (e : Editor) (id : Nat) (s : Slot) : Prop where
  snapshot : s.snapshot = s.gate.value
  ordered : Ordered s.gate.value
  looks : match lastSuccess id e.journal with
    | some r => ∃ wanted, lastWanted id e.journal = some wanted ∧
        e.Finds s.resolver 0 r.tree wanted ∧
        s.gate.value.map Highlight.appearance = wanted.map Highlight.appearance
    | none => s.gate.value = []

/-- Every slot shows what it should; no pass ran on slots that are yet to come. -/
structure Shown (e : Editor) : Prop where
  slots : ∀ (id : Nat) (s : Slot), e.slots[id]? = some s → Shows e id s
  beyond : ∀ id, e.slots.length ≤ id → lastSuccess id e.journal = none

/-! ### One step -/

section Step

variable {e e' : Editor}

/-- A slot goes on showing what it does if no pass succeeded on it and what was found stays found. -/
theorem Shows.later {id : Nat} {s : Slot} (h : Shows e id s)
    (hlast : lastSuccess id e'.journal = lastSuccess id e.journal ∧
      lastWanted id e'.journal = lastWanted id e.journal)
    (hfinds : ∀ {tree wanted}, e.Finds s.resolver 0 tree wanted →
      e'.Finds s.resolver 0 tree wanted) : Shows e' id s := by
  refine ⟨h.snapshot, h.ordered, ?_⟩
  have hlooks := h.looks
  rw [hlast.1, hlast.2]
  cases hr : lastSuccess id e.journal with
  | none =>
      rw [hr] at hlooks
      exact hlooks
  | some r =>
      rw [hr] at hlooks
      obtain ⟨wanted, hwanted, hfound, hsame⟩ := hlooks
      exact ⟨wanted, hwanted, hfinds hfound, hsame⟩

theorem Shown.of_quiet (h : Shown e) (hquiet : Quiet e e') : Shown e' := by
  obtain ⟨evs, hj, hsuccess, -⟩ := hquiet.journal
  have hlast := fun id => lastSuccess_append hsuccess id e.journal
  rw [← hj] at hlast
  constructor
  · intro id s' hs'
    obtain ⟨s, b, hs, rfl⟩ := hquiet.slots id s' hs'
    have hshows := (h.slots id s hs).later (hlast id) hquiet.finds
    exact ⟨hshows.snapshot, hshows.ordered, hshows.looks⟩
  · intro id hid
    rw [(hlast id).1]
    exact h.beyond id (by rw [← hquiet.length]; exact hid)

theorem Shown.install (h : Shown e) (hfit : Fit e) (doc : DocumentId) (surface : Nat)
    (r : Resolver) : Shown (e.install doc surface r) := by
  obtain ⟨evs, hj, htorn⟩ := journal_install e doc surface r
  have hgrows : Grows none e (e.install doc surface r) := grows_install e doc surface r
  have hsuccess : ∀ ev ∈ evs, ev.isSuccess = false := by
    intro ev hev
    obtain ⟨t, rfl⟩ := htorn ev hev
    rfl
  have hlast := fun id => lastSuccess_append hsuccess id e.journal
  rw [← hj] at hlast
  constructor
  · intro id s hs
    rw [slots_install] at hs
    rcases Nat.lt_or_ge id e.slots.length with hlt | hge
    · rw [List.getElem?_append_left hlt] at hs
      exact (h.slots id s hs).later (hlast id)
        (hgrows.finds (hfit.resolvers s (List.mem_of_getElem? hs)))
    · -- the slot is the fresh one: it is empty, and no pass ran on it
      rw [List.getElem?_append_right hge] at hs
      cases List.mem_singleton.mp (List.mem_of_getElem? hs)
      refine ⟨rfl, List.Pairwise.nil, ?_⟩
      rw [(hlast id).1, h.beyond id hge]
      rfl
  · intro id hid
    rw [(hlast id).1]
    refine h.beyond id (Nat.le_of_succ_le ?_)
    rw [slots_install, List.length_append, List.length_singleton] at hid
    exact hid

section Settling

variable {id : Nat} {t : Target} {r : Request} {wanted : List Highlight} {d : Delta}
  {next : List Highlight} {journal past : List Event}

/-- A pass that succeeds is the last one to do so on its slot. -/
theorem lastSuccess_settling (hj : journal = e.settling id t r wanted d next ++ past) :
    lastSuccess id journal = some r ∧ lastWanted id journal = some wanted := by
  rw [hj]
  constructor
  · rw [Editor.settling, lastSuccess, List.cons_append, List.findSome?_cons, Event.successOn,
      if_pos ⟨rfl, Editor.publish_isSuccess e id t wanted d next⟩]
  · rw [Editor.settling, lastWanted, List.cons_append, List.findSome?_cons, List.append_assoc]
    have hsent : ∀ ev ∈ (if d.isEmpty then [] else e.sent ⟨t, d⟩), ev.wantedOn id = none := by
      intro ev hev
      split at hev
      · exact absurd hev List.not_mem_nil
      · rw [Editor.mem_sent hev]
        rfl
    exact (findSome?_append_of_none hsent _).trans (by simp [Event.wantedOn])

/-- Nothing is new for other slots. -/
theorem lastSuccess_settling_of_ne (hj : journal = e.settling id t r wanted d next ++ past)
    {id' : Nat} (hne : id ≠ id') : lastSuccess id' journal = lastSuccess id' past ∧
      lastWanted id' journal = lastWanted id' past := by
  rw [hj]
  constructor
  · refine findSome?_append_of_none (fun ev hev => ?_) past
    rcases Editor.mem_settling hev with ⟨o, rfl, -⟩ | rfl | rfl
    · simp [Event.successOn, hne]
    · rfl
    · rfl
  · refine findSome?_append_of_none (fun ev hev => ?_) past
    rcases Editor.mem_settling hev with ⟨o, rfl, -⟩ | rfl | rfl
    · rfl
    · rfl
    · simp [Event.wantedOn, hne]

theorem Shown.settle (h : Shown e) {s : Slot} (hs : e.slots[id]? = some s)
    (hwanted : e.Finds s.resolver 0 r.tree wanted) (hd : d = .between s.gate.value wanted) :
    Shown (e.settle id s.target r wanted d (d.apply s.gate.value)) := by
  set settled := e.settle id s.target r wanted d (d.apply s.gate.value) with hsettled
  have hj : settled.journal = e.settling id s.target r wanted d _ ++ e.journal :=
    Editor.journal_settle e id s.target r wanted d _
  have hfinds : ∀ {resolver tree found}, e.Finds resolver 0 tree found →
      settled.Finds resolver 0 tree found := by
    intro resolver tree found hfound
    have hpolicy : settled.policy = e.policy := Editor.policy_settle e id s.target r wanted d _
    have hresolvers : settled.resolvers = e.resolvers :=
      (sameLives_settle e id s.target r wanted d _).resolvers
    rw [Editor.Finds, Editor.tablesOf, Editor.callsOf, hpolicy, hresolvers]
    exact hfound
  constructor
  · intro id' s' hs'
    rw [hsettled, Editor.slots_settle, List.getElem?_modify] at hs'
    by_cases hid : id = id'
    · subst hid
      rw [hs] at hs'
      simp only [if_true] at hs'
      cases hs'
      obtain ⟨hlast, hlastWanted⟩ := lastSuccess_settling hj
      refine ⟨rfl, ?_, ?_⟩
      · rw [hd]
        exact Delta.ordered_apply_between hwanted.ordered
      · rw [hlast]
        refine ⟨wanted, hlastWanted, hfinds hwanted, ?_⟩
        show (d.apply s.gate.value).map Highlight.appearance = _
        rw [hd]
        exact Delta.appearance_apply_between hwanted.ordered
    · have hs'' : e.slots[id']? = some s' := by simpa [hid] using hs'
      exact (h.slots id' s' hs'').later (lastSuccess_settling_of_ne hj hid) hfinds
  · intro id' hid'
    rw [hsettled, Editor.slots_settle, List.length_modify] at hid'
    have hne : id ≠ id' := fun heq => absurd (List.getElem?_eq_some_iff.mp hs).1 (by omega)
    rw [(lastSuccess_settling_of_ne hj hne).1]
    exact h.beyond id' hid'

end Settling

theorem Step.shown (hstep : Step e e') (hfit : Fit e) (h : Shown e) : Shown e' := by
  rcases hstep.quiet_or hfit with hquiet | ⟨doc, surface, r, rfl⟩ |
    ⟨id, s, r, wanted, d, hs, hwanted, hd, rfl⟩
  · exact h.of_quiet hquiet
  · exact h.install hfit doc surface r
  · exact h.settle hs hwanted hd

end Step

theorem shown_new (policy : Policy) (table : StyleTable) (thread : Bool) :
    Shown (.new policy table thread) where
  slots := by simp [Editor.new]
  beyond := fun _ _ => rfl

/-- At every moment every slot shows what it should. -/
theorem Editor.Reachable.shown {e : Editor} (h : e.Reachable) : Shown e :=
  (h.invariant shown_new fun _ _ hfit hI hstep => hstep.shown hfit hI).2

/-! ### The highlights of a document -/

/-- **What the highlights of a document are.**  At every moment, and whether or not a pass is in the
gate, everybody reads the list behind the gate.  It is in strict order of position and none of its
highlights is empty.  It looks like what the last pass that succeeded on the slot found, and before
the first such pass it is empty.  What that pass found are the marks of its tree, each in the style
the slot's own resolver had for it in a call of its own, in the order of the calls; if the resolver
always goes by the same table, these are the highlights of the tree in the styles of that table.
The passes are those the journal tells of, and it tells of every pass that returns. -/
theorem published_eq_last_success {e : Editor} (he : e.Reachable) {doc : DocumentId} {id : Nat}
    {s : Slot} (hslot : e.slot? doc = some (id, s)) :
    e.published? doc = some s.gate.value ∧
    Ordered s.gate.value ∧
    (∀ h ∈ s.gate.value, 0 < h.length) ∧
    (match lastSuccess id e.journal with
      | some r => ∃ wanted, lastWanted id e.journal = some wanted ∧
          s.gate.value.map Highlight.appearance = wanted.map Highlight.appearance ∧
          e.Finds s.resolver 0 r.tree wanted ∧
          ∀ table, (∀ n, e.tablesOf s.resolver n = table) →
            wanted = e.policy.highlights table.style r.tree
      | none => s.gate.value = []) ∧
    ∀ fuel r o, (reconcile (execute fuel) r e).result = .ok o →
      ∃ past, (reconcile (execute fuel) r e).last.journal =
        .ended ((e.slot? r.doc).map (·.1)) r o :: past := by
  have hshows : Shows e id s := he.shown.slots id s (Editor.slot?_eq_some.mp hslot).2
  have hlooks := hshows.looks
  refine ⟨?_, hshows.ordered, fun h _ => h.length_pos, ?_, fun _ _ _ ho => reconcile_recorded ho⟩
  · rw [Editor.published?, hslot, Option.map_some, hshows.snapshot]
  · cases hlast : lastSuccess id e.journal with
    | none =>
        rw [hlast] at hlooks
        exact hlooks
    | some r =>
        rw [hlast] at hlooks
        obtain ⟨wanted, hwanted, hfinds, hsame⟩ := hlooks
        exact ⟨wanted, hwanted, hsame, hfinds, fun _ => hfinds.eq_of_steady⟩

/-! ### A document with one number

The text has two digits and nothing else; the scripts are what its surface runs when asked.
-/

namespace OneNumber

def tree : SyntaxTree := { root := .leaf { kind := .literal .number, span := some ⟨0, 2⟩ } }

def highlight : Highlight := ⟨⟨0, 2, .number, by decide⟩, StyleTable.default.style .number⟩

def request : Request := ⟨⟨1⟩, tree, ⟨⟨1, []⟩, 0⟩⟩

def slot : Slot := { target := ⟨⟨1⟩, 0, ⟨0, []⟩⟩, resolver := 0 }

def installed (onLive : List Script) : Editor :=
  ((Editor.new .default .default false).converse 1 [.surface "view" onLive [] false,
    .install ⟨1⟩ "view" (.table []) false [], .token "token" none]).2

theorem reachable_installed (onLive : List Script) : (installed onLive).Reachable :=
  (Editor.Reachable.new _ _ _).converse 1 _

theorem slot?_installed (onLive : List Script) :
    (installed onLive).slot? request.doc = some (0, slot) := rfl

/-- The same document after one pass. -/
def passed (onLive : List Script) : Editor :=
  (perform 1 (.reconcile ⟨1⟩ tree (some "token")) (installed onLive)).last

theorem reachable_passed (onLive : List Script) : (passed onLive).Reachable :=
  (reachable_installed onLive).last 1 _

/-- What the pass did inside the gate. -/
def inside (onLive : List Script) : Course Editor Halt Outcome :=
  passInside (execute 1) 0 slot request ((installed onLive).enterGate 0 slot.entered.gate)

theorem passed_eq {onLive : List Script} {o : Outcome} (ho : (inside onLive).result = .ok o) :
    passed onLive = ((inside onLive).last.leaveGate 0).recordPass (some 0) request o := by
  have hlast : passed onLive = (reconcile (execute 1) request (installed onLive)).last :=
    last_reconcileAnswer (execute 1) ⟨1⟩ tree ⟨⟨1, []⟩, 0⟩ (installed onLive)
  rw [hlast, reconcile_of_free (slot?_installed onLive) rfl]
  change (closePass 0 request (inside onLive)).last = _
  generalize inside onLive = course at ho ⊢
  obtain ⟨seen, result, e⟩ := course
  cases ho
  rfl

/-- The document after two passes, with its table swapped in between. -/
def swapped : Editor :=
  ((Editor.new .default .default false).converse 1 [.surface "view" [] [] true,
    .install ⟨1⟩ "view" (.swapped fun n => if n = 0 then .default else ⟨fun _ => .plain⟩) false [],
    .token "token" none, .reconcile ⟨1⟩ tree (some "token"), .reconcile ⟨1⟩ tree (some "token")]).2

theorem reachable_swapped : swapped.Reachable := (Editor.Reachable.new _ _ _).converse 1 _

def plain : Highlight := { highlight with style := .plain }

theorem swapped_eq :
    swapped.slot? ⟨1⟩ = some (0, { slot with gate := ⟨[plain], false⟩, snapshot := [plain] }) ∧
    lastSuccess 0 swapped.journal = some request := by
  simp only [swapped, Editor.converse, perform, performWith, reconcileAnswer, reconcile, passInside,
    wantedHighlights, Policy.classifyTree_eq_auction, Editor.recordPass]
  generalize Metrics.record = record
  cbv
  exact ⟨rfl, trivial⟩

end OneNumber

open OneNumber

/-- A document with a table that stays, and one with a table that is swapped. -/
theorem published_oneNumber :
    (passed []).slot? ⟨1⟩ =
      some (0, { slot with gate := ⟨[highlight], false⟩, snapshot := [highlight] }) ∧
    lastSuccess 0 (passed []).journal = some request ∧
    (passed []).published? ⟨1⟩ = some [highlight] ∧
    lastWanted 0 (passed []).journal =
      some ((passed []).policy.highlights (StyleTable.default.setAll []).style tree) ∧
    swapped.published? ⟨1⟩ = some [plain] ∧
    ∃ wanted, lastWanted 0 swapped.journal = some wanted ∧ swapped.Finds 0 0 tree wanted ∧
      [plain].map Highlight.appearance = wanted.map Highlight.appearance := by
  have hpassed : passed [] = _ := passed_eq (o := .published 1 0) (by
    simp only [inside, passInside, wantedHighlights, Policy.classifyTree_eq_auction]
    cbv)
  have hslot : (passed []).slot? ⟨1⟩ =
      some (0, { slot with gate := ⟨[highlight], false⟩, snapshot := [highlight] }) := by
    rw [hpassed]
    change ((inside []).last.leaveGate 0).slot? ⟨1⟩ = _
    simp only [inside, passInside, wantedHighlights, Policy.classifyTree_eq_auction]
    cbv
  have hsuccess : lastSuccess 0 (passed []).journal = some request := by
    rw [hpassed]
    rfl
  have htables : ∀ n, (passed []).tablesOf 0 n = StyleTable.default.setAll [] := by
    intro n
    rw [hpassed]
    change (inside []).last.tablesOf 0 n = _
    simp only [inside, passInside, wantedHighlights, Policy.classifyTree_eq_auction]
    cbv
  obtain ⟨hpublished, -, -, hlooks, -⟩ := published_eq_last_success (reachable_passed []) hslot
  rw [hsuccess] at hlooks
  obtain ⟨wanted, hwanted, -, -, hsteady⟩ := hlooks
  obtain ⟨hslot', hsuccess'⟩ := swapped_eq
  obtain ⟨hpublished', -, -, hlooks', -⟩ := published_eq_last_success reachable_swapped hslot'
  rw [hsuccess'] at hlooks'
  obtain ⟨wanted', hwanted', hsame, hfinds, -⟩ := hlooks'
  exact ⟨hslot, hsuccess, hpublished, hsteady _ htables ▸ hwanted, hpublished', wanted', hwanted',
    hfinds, hsame⟩

/-! ### Passes that do not succeed -/

/-- **All or nothing.**  Whatever the surroundings do meanwhile, a pass that does not run to its end
(no such document, dropped, cancelled, failed, view gone, or left by a panic) has its slot as it was
when the pass looked it up, list and snapshot, and has put nothing into the queue for it.  Unless it
was dropped the gate is free. -/
theorem reconcile_all_or_nothing {e : Editor} (he : e.Reachable) (fuel : Nat) (r : Request)
    (hfail : ∀ o, (reconcile (execute fuel) r e).result = .ok o → o.isSuccess = false) :
    let course := reconcile (execute fuel) r e
    match e.slot? r.doc with
    | none => course.result = .ok .notInstalled ∧ course.last.slots = e.slots ∧
        course.last.queue = e.queue
    | some (id, s) => course.last.slots[id]? = some s ∧
        course.last.jobsFor s.target <:+ e.jobsFor s.target ∧
        (∃ evs, course.last.journal = evs ++ e.journal ∧
          ∀ j, .queued j ∈ evs → j.target ≠ s.target) ∧
        (course.result ≠ .ok .dropped → s.gate.busy = false) := by
  have hnot : ¬Succeeded (reconcile (execute fuel) r e).result := by
    rintro ⟨o, ho, hsuccess⟩
    rw [hfail o ho] at hsuccess
    exact Bool.noConfusion hsuccess
  have hspec := (reconcile_spec (execute_commanding fuel) he.fit r).2.2 hnot
  intro course
  rcases hslot : e.slot? r.doc with _ | ⟨id, s⟩
  · rw [hslot] at hspec
    exact ⟨hspec.1, by rw [hspec.2]; rfl, by rw [hspec.2]; rfl⟩
  · rw [hslot] at hspec
    obtain ⟨hspared, hgate⟩ := hspec
    exact ⟨hspared.slot, hspared.queue, hspared.journal, hgate⟩

/-- The surface, asked by the pass, uninstalls the document. -/
theorem reconcile_uninstalled_meanwhile :
    let e := installed [[.uninstall ⟨1⟩]]
    let course := reconcile (execute 1) request e
    course.result = .ok (.cancelled .beforeDispatch) ∧ course.last.slots[0]? = some slot ∧
      course.last.jobsFor slot.target <:+ e.jobsFor slot.target ∧ slot.gate.busy = false := by
  have hresult : (reconcile (execute 1) request (installed [[.uninstall ⟨1⟩]])).result =
      .ok (.cancelled .beforeDispatch) := by
    simp only [reconcile, passInside, wantedHighlights, Policy.classifyTree_eq_auction]
    cbv
  have hspared := reconcile_all_or_nothing (reachable_installed [[.uninstall ⟨1⟩]]) 1 request
    (by rw [hresult]; rintro _ ⟨⟩; rfl)
  rw [slot?_installed] at hspared
  exact ⟨hresult, hspared.1, hspared.2.1, hspared.2.2.2 (by rw [hresult]; simp)⟩

end Highlighting
