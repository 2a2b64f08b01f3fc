/-
Calls of the surroundings, and what they come back with.

All that is known of the surroundings is that their scripts are made of commands,
which is `run` keeping `Runs`.  A resolver is asked many times in one pass, and
scripts run in between, so its calls in one pass need not follow each other; but it
never loses its tables nor a call, and the marks are styled in their order.
-/
import Highlighting.Proofs.Editor.Grows

namespace Highlighting

open Act

/-! ### What telling and reporting touch -/

theorem outside_log (e : Editor) {event : Event} (h : event.isIdle = true) :
    Outside e (e.log event) where
  journal := ⟨[event], rfl, by simpa using h⟩

theorem outside_worked (e : Editor) (t : Token) (units : UInt32) :
    Outside e (e.worked t units) where

theorem outside_modifySurface (e : Editor) (id : Nat) {f : Surface → Surface}
    (h : ∀ s, (f s).name = s.name) : Outside e (e.modifySurface id f) where
  surfaces := by
    show _ <+: (e.surfaces.modify id f).map (·.name)
    rw [map_modify_of_const h]

theorem Editor.callsOf_next (e : Editor) (id resolver : Nat) :
    (e.modifyResolver id Resolver.next).callsOf resolver = e.callsOf resolver +
      if id = resolver ∧ resolver < e.resolvers.length then 1 else 0 := by
  show ((e.resolvers.modify id _).map (·.calls)).getD resolver 0 = _
  rw [callsOf, List.getD_eq_getElem?_getD, List.getD_eq_getElem?_getD, List.getElem?_map,
    List.getElem?_map, List.getElem?_modify]
  rcases Nat.lt_or_ge resolver e.resolvers.length with hlt | hge
  · rw [List.getElem?_eq_getElem hlt]
    by_cases hid : id = resolver <;> simp [hid, hlt, Resolver.next]
  · simp [Nat.not_lt.mpr hge]

theorem outside_next (e : Editor) (id : Nat) :
    Outside e (e.modifyResolver id Resolver.next) where
  tables := map_modify_of_const (f := Resolver.next) (fun _ => rfl) _ _
  calls := fun resolver => by
    rw [Editor.callsOf_next]
    exact Nat.le_add_right _ _

theorem getElem?_of_map_prefix {α β : Type} {f : α → β} {l l' : List α} {i : Nat} {a : α}
    (h : l.map f <+: l'.map f) (ha : l[i]? = some a) : ∃ a', l'[i]? = some a' ∧ f a' = f a := by
  obtain ⟨rest, hrest⟩ := h
  have hi : (l'.map f)[i]? = some (f a) := by
    rw [← hrest, List.getElem?_append_left (by simpa using (List.getElem?_eq_some_iff.mp ha).1),
      List.getElem?_map, ha]
    rfl
  rw [List.getElem?_map] at hi
  exact Option.map_eq_some_iff.mp hi

theorem Grows.resolvers_le {own : Option Nat} {e e' : Editor} (h : Grows own e e') :
    e.resolvers.length ≤ e'.resolvers.length := by
  have hlen := h.tables.length_le
  rw [List.length_map, List.length_map] at hlen
  exact hlen

/-- Resolvers keep their tables. -/
theorem Grows.tablesOf {own : Option Nat} {e e' : Editor} (h : Grows own e e') {id : Nat}
    (hid : id < e.resolvers.length) : e'.tablesOf id = e.tablesOf id := by
  obtain ⟨rest, hrest⟩ := h.tables
  rw [Editor.tablesOf, Editor.tablesOf, ← hrest, List.getD_append]
  rw [List.length_map]
  exact hid

/-- What was found stays found. -/
theorem Grows.finds {own : Option Nat} {e e' : Editor} (h : Grows own e e') {id n : Nat}
    (hid : id < e.resolvers.length) {tree : SyntaxTree} {wanted : List Highlight}
    (hwanted : e.Finds id n tree wanted) : e'.Finds id n tree wanted := by
  rw [Editor.Finds, h.policy, h.tablesOf hid]
  exact hwanted.mono (Nat.le_refl _) (h.calls id)

variable {run : Script → EditorM Unit}

/-- The scripts of the surroundings are made of commands. -/
def Commanding (run : Script → EditorM Unit) : Prop := ∀ script, Keeps Runs (run script)

/-- Somebody outside is called: the journal tells of it, the next script is taken, and it runs. -/
theorem ensures_call (hrun : Commanding run) {α : Type} {e : Editor} {event : Event}
    (hidle : event.isIdle = true) {taken : Editor → Editor} (htaken : ∀ e, Outside e (taken e))
    {script : Script} {k : Unit → EditorM α} {Q : Except Halt α → Editor → Prop}
    (hfail : ∀ h e', Runs e e' → Q (.error h) e')
    (hreturn : ∀ e', Runs e (taken (e.log event)) → Runs (taken (e.log event)) e' →
      Ensures (k ()) e' (Runs e) Q) :
    Ensures (EditorM.log event >>= fun _ => Act.modify taken >>= fun _ => run script >>= k) e
      (Runs e) Q := by
  have hcalled : Runs e (taken (e.log event)) :=
    (outside_log e hidle).runs.trans (htaken (e.log event)).runs
  rw [ensures_bind, EditorM.log, ensures_modify, next_ok, ensures_bind, ensures_modify, next_ok,
    ensures_bind]
  refine (hrun script _).mono (fun m hm => hcalled.trans hm) fun r e' hran => ?_
  cases r with
  | error h => exact hfail h e' (hcalled.trans hran)
  | ok => exact hreturn e' hcalled hran

/-! ### Surfaces -/

/-- How it can come that a surface says a view is there: it was asked, or it always says so. -/
def Confirmed (surface : Nat) (doc : DocumentId) (e e' : Editor) : Prop :=
  ∃ s query, e'.surfaces[surface]? = some s ∧ e'.journal = query ++ e.journal ∧
    (query = [] ∨ ∃ during, query = during ++ [.asked s.name doc])

theorem askSurface_spec (hrun : Commanding run) {e : Editor} (hfit : Fit e) (id : Nat)
    (doc : DocumentId) :
    Ensures (askSurface run id doc) e (Runs e) fun r e' =>
      Runs e e' ∧ (r = .ok true → Confirmed id doc e e') := by
  unfold askSurface
  rw [ensures_bind, ensures_get, next_ok]
  cases hs : e.surfaces[id]? with
  | none =>
      rw [ensures_pure]
      exact ⟨refl e, by simp⟩
  | some s =>
      dsimp only
      split
      · rw [ensures_pure]
        exact ⟨refl e, fun _ => ⟨s, [], hs, rfl, Or.inl rfl⟩⟩
      · refine ensures_call hrun ?_ ?_ (fun _ _ hback => ?_) fun e' hcalled hran => ?_
        · rfl
        · exact fun e => outside_modifySurface e id fun _ => rfl
        · exact ⟨hback, by simp⟩
        have hback : Runs e e' := hcalled.trans hran
        rw [ensures_bind, ensures_get, next_ok, ensures_pure]
        refine ⟨hback, fun _ => ?_⟩
        -- the surface is the one that was asked, so the name told is its name
        obtain ⟨s', hs', hname⟩ := getElem?_of_map_prefix (hback.1 hfit).2.2.surfaces hs
        obtain ⟨during, hduring, -⟩ := (hran.1 (hcalled.1 hfit).1).2.2.journal
        refine ⟨s', during ++ [.asked s'.name doc], hs', ?_, Or.inr ⟨during, rfl⟩⟩
        rw [hduring, hname, List.append_assoc]
        rfl

/-- Whether a target that is not torn down is there is for its surface to say. -/
theorem isLive_asks (hrun : Commanding run) {e : Editor} (hfit : Fit e) {t : Target}
    (hlife : e.isTornDown t = false) :
    Ensures (isLive run t) e (Runs e) fun r e' =>
      Runs e e' ∧ (r = .ok true → Confirmed t.surface t.doc e e') ∧
        (askSurface run t.surface t.doc e).result = r ∧
        (askSurface run t.surface t.doc e).last = e' := by
  have hspec := askSurface_spec hrun hfit t.surface t.doc
  unfold isLive
  rw [ensures_bind, ensures_get, next_ok, if_neg (by simp [hlife])]
  exact ⟨hspec.1, hspec.2.1, hspec.2.2, rfl, rfl⟩

theorem isLive_keeps (hrun : Commanding run) (t : Target) : Keeps Runs (isLive run t) :=
  keeps_runs fun e hfit => by
    unfold isLive
    rw [ensures_bind, ensures_get, next_ok]
    split
    · rw [ensures_pure]
      exact refl e
    · exact (askSurface_spec hrun hfit t.surface t.doc).mono (fun _ hm => hm) fun _ _ h => h.1

/-! ### Resolvers -/

/-- A resolver answers by the table of its call, whatever its script does. -/
theorem resolveStyle_spec (hrun : Commanding run) {e : Editor} (hfit : Fit e) {id : Nat}
    (hid : id < e.resolvers.length) (kind : Kind) :
    Ensures (resolveStyle run id kind) e (Runs e) fun r e' =>
      Runs e e' ∧ ∀ style, r = .ok style →
        style = (e.tablesOf id (e.callsOf id)).style kind ∧ e.callsOf id < e'.callsOf id := by
  have hr : e.resolvers[id]? = some e.resolvers[id] := List.getElem?_eq_getElem hid
  have hstyle : e.resolvers[id].style kind = (e.tablesOf id (e.callsOf id)).style kind := by
    rw [Editor.tablesOf_eq hr, Editor.callsOf_eq hr]
    rfl
  have hcounted : (e.modifyResolver id Resolver.next).callsOf id = e.callsOf id + 1 := by
    rw [Editor.callsOf_next, if_pos ⟨rfl, hid⟩]
  unfold resolveStyle
  rw [ensures_bind, ensures_get, next_ok, hr]
  dsimp only
  split
  · refine ensures_call hrun ?_ ?_ (fun _ _ hback => ?_) fun e' hcalled hran => ?_
    · rfl
    · exact fun e => outside_next e id
    · exact ⟨hback, by simp⟩
    rw [ensures_pure]
    refine ⟨hcalled.trans hran, ?_⟩
    rintro _ ⟨⟩
    have hcalls := (hran.1 (hcalled.1 hfit).1).2.2.calls id
    exact ⟨hstyle, Nat.lt_of_lt_of_le (Nat.lt_of_lt_of_eq (Nat.lt_succ_self _) hcounted.symm) hcalls⟩
  · rw [ensures_bind, ensures_modify, next_ok, ensures_pure]
    refine ⟨(outside_next e id).runs, ?_⟩
    rintro _ ⟨⟩
    exact ⟨hstyle, by omega⟩

/-- Styles marks by a resolver, one after the other. -/
theorem styleMarks_spec (hrun : Commanding run) {id : Nat} (marks : List Mark) :
    ∀ {e : Editor}, Fit e → id < e.resolvers.length →
      Ensures (marks.mapM fun m => do return m.styled (← resolveStyle run id m.kind)) e (Runs e)
        fun r e' => Runs e e' ∧
          ∀ hs, r = .ok hs → Styled (e.tablesOf id) (e.callsOf id) (e'.callsOf id) marks hs := by
  induction marks with
  | nil =>
      intro e _ _
      rw [List.mapM_nil, ensures_pure]
      exact ⟨refl e, by rintro _ ⟨⟩; exact .nil⟩
  | cons m rest ih =>
      intro e hfit hid
      rw [List.mapM_cons, bind_assoc, ensures_bind]
      refine (resolveStyle_spec hrun hfit hid m.kind).mono (fun _ hm => hm) fun r e' h => ?_
      cases r with
      | error => exact ⟨h.1, by simp⟩
      | ok style =>
          obtain ⟨hfit', -, hgrows⟩ := h.1.1 hfit
          have hid' : id < e'.resolvers.length := Nat.lt_of_lt_of_le hid hgrows.resolvers_le
          rw [next_ok, pure_bind, ensures_bind]
          refine (ih hfit' hid').mono (fun _ hm => h.1.trans hm) fun r' e'' h' => ?_
          cases r' with
          | error => exact ⟨h.1.trans h'.1, by simp⟩
          | ok styled =>
              rw [next_ok, ensures_pure]
              refine ⟨h.1.trans h'.1, ?_⟩
              rintro _ ⟨⟩
              -- the call for the first mark comes before all calls for the others
              obtain ⟨rfl, hlater⟩ := h.2 style rfl
              have hrest := h'.2 styled rfl
              rw [hgrows.tablesOf hid] at hrest
              have hcalls := (h'.1.1 hfit').2.2.calls id
              exact .cons (Nat.le_refl _) (Nat.lt_of_lt_of_le hlater hcalls) m
                (hrest.mono hlater (Nat.le_refl _))

theorem wantedHighlights_spec (hrun : Commanding run) {e : Editor} (hfit : Fit e) {id : Nat}
    (hid : id < e.resolvers.length) (tree : SyntaxTree) :
    Ensures (wantedHighlights run id tree) e (Runs e) fun r e' =>
      Runs e e' ∧ ∀ hs, r = .ok hs → e'.Finds id (e.callsOf id) tree hs := by
  unfold wantedHighlights
  rw [ensures_bind, ensures_get, next_ok]
  refine (styleMarks_spec hrun _ hfit hid).mono (fun _ hm => hm) fun r e' h => ⟨h.1, ?_⟩
  obtain ⟨-, -, hgrows⟩ := h.1.1 hfit
  intro hs hok
  rw [Editor.Finds, hgrows.policy, hgrows.tablesOf hid]
  exact h.2 hs hok

end Highlighting
