/-
What the meters of tokens show.

A pass reports work in five portions between its ten exits, and passes run inside the
callbacks of others, maybe with the same token.  Each exit has a sum of its own, so what
a meter shows can be read off the journal: it is what was reported directly and what each
pass that ended or was left by a panic is worth.  That holds whenever no pass is in a
gate; in between, the passes under way have reported something that the journal does not
tell of yet.

`Credits own e e'` says so of the way from `e` to `e'`, on which a pass may have `own`
work that is not in the journal.  It adds up along actions, and a pass that leaves its
gate puts into the journal what it owns.
-/
import Highlighting.Proofs.Flight
import Highlighting.Proofs.Outcome
import Mathlib

namespace Highlighting

open Act EditorM

/-! ### Units -/

/-- What a pass that ended in this way is worth. -/
def Outcome.units : Outcome → Nat
  | notInstalled | dropped => 0
  | failed (.classifierPanicked _) => 1
  | cancelled .classified => 6
  | cancelled .snapshotted | failed (.diffPanicked _) => 7
  | cancelled .diffed | targetGone | cancelled .beforeDispatch => 9
  | published _ _ | unchanged => 10

/-- What a pass that was left by a panic is worth. -/
def unitsUnwound : Nat := 9

/-- What a pass is worth that returned or was left by a panic. -/
def unitsOf : Except Halt Outcome → Nat
  | .ok o => o.units
  | .error _ => unitsUnwound

theorem Outcome.units_eq_ten_iff (o : Outcome) : o.units = 10 ↔ o.isSuccess = true := by
  rcases o with _ | _ | _ | (_ | _ | _ | _) | (_ | _) | _ | _ <;> simp [units, isSuccess]

/-- The work on a meter an event tells of. -/
def Event.unitsOn (meter : Nat) : Event → Nat
  | reported t units => if t.meter = meter then units.toNat else 0
  | ended _ r o => if r.token.meter = meter then o.units else 0
  | unwound _ r => if r.token.meter = meter then unitsUnwound else 0
  | _ => 0

/-- The work on a meter: what was reported directly, and what the passes are worth. -/
def unitsOn (meter : Nat) (evs : List Event) : Nat := (evs.map (Event.unitsOn meter)).sum

section Counts

variable (n meter : Nat) (evs evs' : List Event)

theorem entries_append : entries n (evs ++ evs') = entries n evs + entries n evs' :=
  List.countP_append

theorem exits_append : exits n (evs ++ evs') = exits n evs + exits n evs' :=
  List.countP_append

theorem unitsOn_append : unitsOn meter (evs ++ evs') = unitsOn meter evs + unitsOn meter evs' := by
  rw [unitsOn, List.map_append, List.sum_append]
  rfl

/-- Events that are aside from passes and report nothing. -/
theorem counts_of_calm {evs : List Event}
    (h : ∀ ev ∈ evs, ev.isReckoned = false ∧ ev.isReport = false) :
    (∀ n, entries n evs = 0 ∧ exits n evs = 0) ∧ ∀ meter, unitsOn meter evs = 0 := by
  refine ⟨fun n => ⟨?_, ?_⟩, fun meter => List.sum_eq_zero fun units hunits => ?_⟩
  · refine List.countP_eq_zero.mpr fun ev hev => ?_
    simp [(Event.of_not_isReckoned (h ev hev).1 n).1]
  · refine List.countP_eq_zero.mpr fun ev hev => ?_
    simp [(Event.of_not_isReckoned (h ev hev).1 n).2]
  · obtain ⟨ev, hev, rfl⟩ := List.mem_map.mp hunits
    obtain ⟨hreckoned, hreport⟩ := h ev hev
    cases ev with
    | ended | unwound => cases hreckoned
    | reported => cases hreport
    | _ => rfl

end Counts

/-! ### Meters -/

/-- What a meter shows. -/
def Tokens.reading (ts : Tokens) (meter : Nat) : UInt32 := ts.meters[meter]?.getD 0

theorem Tokens.reading_worked {ts : Tokens} {t : Token} (ht : t.meter < ts.meters.length)
    (units : UInt32) (meter : Nat) : (ts.worked t units).reading meter =
      ts.reading meter + UInt32.ofNat ((Pi.single t.meter units.toNat : Nat → Nat) meter) := by
  unfold reading worked
  rw [List.getElem?_modify]
  by_cases heq : t.meter = meter
  · subst heq
    simp [ht]
  · simp [heq, Ne.symm heq]

/-- The tokens that have names are of meters that are there. -/
def Editor.Metered (e : Editor) : Prop :=
  ∀ name t, e.tokenNames.get? name = some t → t.meter < e.tokens.meters.length

/-- From `e` to `e'` each meter has moved by what the journal tells, and by `own` besides.  As many
passes have entered each gate as have left it. -/
structure Credits (own : Nat → Nat) (e e' : Editor) : Prop where
  metered : e'.Metered
  grows : e.tokens.meters.length ≤ e'.tokens.meters.length
  told : ∃ evs, e'.journal = evs ++ e.journal ∧ (∀ n, exits n evs = entries n evs) ∧
    ∀ meter, e'.tokens.reading meter =
      e.tokens.reading meter + UInt32.ofNat (unitsOn meter evs + own meter)

/-- What can be seen at `m`, on the way from `e`: either a pass is in a gate that it has entered
since, or the meters have moved by what the journal tells. -/
structure Glimpse (e m : Editor) : Prop where
  metered : m.Metered
  told : ∃ evs, m.journal = evs ++ e.journal ∧ (∀ n, exits n evs ≤ entries n evs) ∧
    ((∀ n, exits n evs = entries n evs) →
      ∀ meter, m.tokens.reading meter = e.tokens.reading meter + UInt32.ofNat (unitsOn meter evs))

namespace Credits

variable {own own' : Nat → Nat} {e e' e'' m : Editor}

theorem refl (h : e.Metered) : Credits 0 e e :=
  ⟨h, Nat.le_refl _, [], rfl, fun _ => rfl, fun meter => by simp [unitsOn]⟩

theorem trans (h : Credits own e e') (h' : Credits own' e' e'') : Credits (own + own') e e'' := by
  obtain ⟨evs, hj, hbalance, hread⟩ := h.told
  obtain ⟨evs', hj', hbalance', hread'⟩ := h'.told
  refine ⟨h'.metered, h.grows.trans h'.grows, evs' ++ evs, ?_, fun n => ?_, fun meter => ?_⟩
  · rw [hj', hj, List.append_assoc]
  · rw [exits_append, entries_append, hbalance, hbalance']
  · rw [hread', hread, add_assoc, ← UInt32.ofNat_add, unitsOn_append]
    congr 2
    simp only [Pi.add_apply]
    omega

/-- What others do adds nothing of the pass. -/
theorem next (h : Credits own e e') (h' : Credits 0 e' e'') : Credits own e e'' := by
  simpa using h.trans h'

theorem glimpse (h : Credits 0 e e') (hm : Glimpse e' m) : Glimpse e m := by
  obtain ⟨evs, hj, hbalance, hread⟩ := h.told
  obtain ⟨evs', hj', hbalance', hread'⟩ := hm.told
  refine ⟨hm.metered, evs' ++ evs, ?_, fun n => ?_, fun hall meter => ?_⟩
  · rw [hj', hj, List.append_assoc]
  · rw [exits_append, entries_append, hbalance]
    exact Nat.add_le_add_right (hbalance' n) _
  · have hall' : ∀ n, exits n evs' = entries n evs' := by
      intro n
      have hn := hall n
      rw [exits_append, entries_append, hbalance] at hn
      exact Nat.add_right_cancel hn
    rw [hread' hall', hread, add_assoc, ← UInt32.ofNat_add, unitsOn_append]
    congr 2
    simp only [Pi.zero_apply]
    omega

/-- What is told before and after makes up for what is owned. -/
theorem close {e₀ : Editor} (h : Credits own e e') (before after : List Event)
    (hbefore : e.journal = before ++ e₀.journal) (htokens : e.tokens = e₀.tokens)
    (hafter : e''.journal = after ++ e'.journal) (htokens' : e''.tokens = e'.tokens)
    (hnames : e''.tokenNames = e'.tokenNames)
    (hbalance : ∀ n, exits n after + exits n before = entries n after + entries n before)
    (hunits : ∀ meter, unitsOn meter after + unitsOn meter before = own meter) :
    Credits 0 e₀ e'' := by
  obtain ⟨evs, hj, heven, hread⟩ := h.told
  refine ⟨?_, ?_, after ++ (evs ++ before), ?_, fun n => ?_, fun meter => ?_⟩
  · intro name t ht
    rw [hnames] at ht
    rw [htokens']
    exact h.metered name t ht
  · rw [htokens', ← htokens]
    exact h.grows
  · rw [hafter, hj, hbefore]
    simp only [List.append_assoc]
  · have hn := hbalance n
    simp only [exits_append, entries_append, heven]
    omega
  · have hmeter := hunits meter
    rw [htokens', hread, htokens, unitsOn_append, unitsOn_append]
    congr 2
    simp only [Pi.zero_apply]
    omega

/-- What was owned is told of. -/
theorem tell (h : Credits own e e') (ev : Event)
    (hother : ∀ n, ev.enters n = false ∧ ev.leaves n = false)
    (hunits : ∀ meter, ev.unitsOn meter = own meter) (hj : e''.journal = ev :: e'.journal)
    (htokens : e''.tokens = e'.tokens) (hnames : e''.tokenNames = e'.tokenNames) :
    Credits 0 e e'' :=
  h.close [] [ev] rfl rfl hj htokens hnames (fun n => by simp [exits, entries, hother])
    fun meter => by simp [unitsOn, hunits]

end Credits

theorem Calm.credits {e e' : Editor} (h : Calm e e') (he : e.Metered) : Credits 0 e e' := by
  obtain ⟨evs, hj, hevs⟩ := h.journal
  obtain ⟨fresh, hmeters⟩ := h.meters
  obtain ⟨hcounts, hunits⟩ := counts_of_calm hevs
  have hgrows : e.tokens.meters.length ≤ e'.tokens.meters.length := by
    rw [hmeters, List.length_append]
    exact Nat.le_add_right _ _
  refine ⟨fun name t ht => ?_, hgrows, evs, hj, fun n => ?_, fun meter => ?_⟩
  · rcases h.names name t ht with ht | hlt
    · exact Nat.lt_of_lt_of_le (he name t ht) hgrows
    · exact hlt
  · rw [(hcounts n).1, (hcounts n).2]
  · rw [hunits, Tokens.reading, Tokens.reading, hmeters, List.getElem?_append]
    split
    · simp
    · rename_i hlt
      -- a meter that was not there showed nothing
      rw [List.getElem?_eq_none (Nat.le_of_not_lt hlt), List.getElem?_replicate]
      split <;> simp

theorem credits_worked {e : Editor} (he : e.Metered) {t : Token}
    (ht : t.meter < e.tokens.meters.length) (units : UInt32) :
    Credits (Pi.single t.meter units.toNat) e (e.worked t units) := by
  have hlength : (e.worked t units).tokens.meters.length = e.tokens.meters.length :=
    List.length_modify _ _ _
  refine ⟨fun name t' ht' => ?_, hlength.ge, [], rfl, fun _ => rfl, fun meter => ?_⟩
  · rw [hlength]
    exact he name t' ht'
  · rw [show unitsOn meter [] = 0 from rfl, Nat.zero_add]
    exact Tokens.reading_worked ht units meter

/-- A pass reports a portion more. -/
theorem Credits.work {e e' : Editor} {t : Token} {u : Nat}
    (h : Credits (Pi.single t.meter u) e e') (ht : t.meter < e.tokens.meters.length)
    (units : UInt32) : Credits (Pi.single t.meter (u + units.toNat)) e (e'.worked t units) := by
  rw [Pi.single_add]
  exact h.trans (credits_worked h.metered (Nat.lt_of_lt_of_le ht h.grows) units)

/-! ### Actions -/

/-- The work on all meters while an action begun in `e` goes on is told. -/
def Accounts {α : Type} (x : EditorM α) (e : Editor) : Prop :=
  Ensures x e (Glimpse e) fun result e' => GoesOn result → Credits 0 e e'

/-- Wherever the action begins, the work on all meters is told. -/
def Credited (α : Type) (x : EditorM α) : Prop := ∀ e, e.Metered → Accounts x e

section Actions

variable {α β : Type} {x : EditorM α} {e e' : Editor}

theorem accounts_of_credits (h : Ensures x e (fun _ => False) fun _ e' => Credits 0 e e') :
    Accounts x e :=
  h.mono (fun _ hm => hm.elim) fun _ _ hcredits _ => hcredits

/-- An action goes on where another one ended. -/
theorem Accounts.after (hx : Accounts x e') (hfirst : Credits 0 e e') :
    Ensures x e' (Glimpse e) fun result e'' => GoesOn result → Credits 0 e e'' :=
  hx.mono (fun _ hm => hfirst.glimpse hm) fun _ _ h hgo => hfirst.next (h hgo)

theorem Accounts.bind {k : α → EditorM β} (hx : Accounts x e)
    (hk : ∀ a e', Credits 0 e e' → Accounts (k a) e') : Accounts (x >>= k) e := by
  rw [Accounts, ensures_bind]
  refine Ensures.mono hx (fun _ hm => hm) ?_
  rintro (halted | a) e' h
  · exact fun hgo => h hgo.of_error
  · exact (hk a e' (h (goesOn_ok a))).after (h (goesOn_ok a))

theorem Accounts.catching (hx : Accounts x e) : Accounts (catching x) e := by
  rw [Accounts, ensures_catching]
  refine Ensures.mono hx (fun _ hm => hm) ?_
  rintro ((p | h | _) | a) e' hcredits
  · exact fun _ => hcredits (goesOn_panic p)
  · exact fun hgo => hcredits hgo.of_error
  · exact fun hgo => hcredits hgo.of_error
  · exact fun _ => hcredits (goesOn_ok a)

/-- **Telling of all work goes through the text of actions.** -/
theorem composes_credited : ComposesOver Calm Credited where
  calm h := h
  pure a e he := accounts_of_credits (by simpa using .refl he)
  halt h e he := accounts_of_credits (by simpa using .refl he)
  look e he := by
    rw [Accounts, ensures_look]
    refine ⟨⟨he, [], rfl, fun _ => Nat.le_refl _, fun _ meter => ?_⟩, fun _ => .refl he⟩
    simp [unitsOn]
  get e he := accounts_of_credits (by simpa using .refl he)
  modify hf e he := accounts_of_credits (by simpa using (hf e).credits he)
  modifyGet hf e he := accounts_of_credits (by simpa using (hf e).credits he)
  bind hx hk e he := (hx e he).bind fun a e' h => hk a e' h.metered
  ensuring {_ _ f} hx hf e he := by
    rw [Accounts, ensures_ensuring]
    refine Ensures.mono (hx e he) (fun _ hm => hm) fun _ e' h hgo => ?_
    exact (h hgo).next ((hf e').credits (h hgo).metered)
  catching hx e he := (hx e he).catching
  attempt {_ _ _ k f} hx hok hf herror e he := by
    rw [Accounts, ensures_bind, ensures_attempt]
    refine Ensures.mono (hx e he) (fun _ hm => hm) ?_
    rintro (halted | a) e' h
    · rw [next_ok, herror, ensures_bind, ensures_modify, next_ok, ensures_halt]
      intro hgo
      have hcredits := h hgo.of_error
      exact hcredits.next ((hf e').credits hcredits.metered)
    · rw [next_ok]
      exact (hok a e' (h (goesOn_ok a)).metered).after (h (goesOn_ok a))

/-- The token under a name has a meter. -/
theorem credited_withToken {name : String} {k : Token → EditorM Answer}
    (hk : ∀ t e, e.Metered → t.meter < e.tokens.meters.length → Accounts (k t) e) :
    Credited Answer (withToken name k) := by
  intro e he
  unfold withToken named Accounts
  rw [ensures_bind, ensures_get, next_ok]
  split
  · rename_i t ht
    exact hk t e he (he name t ht)
  · exact composes_credited.pure _ e he

end Actions

/-! ### Passes among others -/

/-- What a pass meets on its way: what others do just before it looks whether it was cancelled, and
how highlights are compared, which may panic. -/
structure Company where
  meanwhile : Checkpoint → Editor → Editor
  compare : List Highlight → List Highlight → Except Payload Delta

/-- Nobody does anything, and comparing is what it should be. -/
def Company.none : Company := ⟨fun _ e => e, fun shown wanted => .ok (.between shown wanted)⟩

/-- Others tell of the work they do. -/
def Company.Tells (w : Company) : Prop :=
  ∀ checkpoint e, e.Metered → Credits 0 e (w.meanwhile checkpoint e)

section Company

variable (run : Script → EditorM Unit) (w : Company)

/-- The part of a pass behind classification, in company. -/
def reconcileAmong (id : Nat) (t : Target) (token : Token) (wanted : List Highlight) :
    EditorM Outcome := do
  EditorM.work token unitsClassify
  Act.modify (w.meanwhile .classified)
  if (← Act.get).isInterrupted token t then return .cancelled .classified
  else
    let shown := (← Act.get).gateValue id
    EditorM.work token unitsSnapshot
    Act.modify (w.meanwhile .snapshotted)
    if (← Act.get).isInterrupted token t then return .cancelled .snapshotted
    else match w.compare shown wanted with
      | .error p => return .failed (.diffPanicked p.message)
      | .ok delta =>
        EditorM.work token unitsDiff
        Act.modify (w.meanwhile .diffed)
        if (← Act.get).isInterrupted token t then return .cancelled .diffed
        else if !(← isLive run t) then return .targetGone
        else
          Act.modify (w.meanwhile .beforeDispatch)
          if (← Act.get).isInterrupted token t then return .cancelled .beforeDispatch
          else
            let outcome ← Act.modifyGet (·.publish id t wanted delta (delta.apply shown))
            EditorM.work token unitsPublish
            return outcome

/-- A pass inside the gate of a slot, in company. -/
def passAmong (id : Nat) (s : Slot) (r : Request) : EditorM Outcome := do
  EditorM.work r.token unitsBegin
  match ← EditorM.catching (wantedHighlights run s.resolver r.tree) with
  | .error p => return .failed (.classifierPanicked p.message)
  | .ok wanted => reconcileAmong run w id s.target r.token wanted

/-- The pass that is run is one in no company. -/
theorem passInside_eq : passInside run = passAmong run .none := by
  funext id s r
  rfl

end Company

/-- What a pass in a gate has reported by the time it is done there.  It was not dropped. -/
structure PassCredits (token : Token) (e : Editor) (result : Except Halt Outcome) (e' : Editor) :
    Prop where
  credits : GoesOn result → Credits (Pi.single token.meter (unitsOf result)) e e'
  entered : result ≠ .ok .dropped

/-- What can be seen while a pass that has reported some work lets others do things. -/
def GlimpseInside (e m : Editor) : Prop := ∃ own e', Credits own e e' ∧ Glimpse e' m

section Inside

variable {run : Script → EditorM Unit} {w : Company} {token : Token} {e₀ e : Editor}

/-- An answer of the surroundings, while a pass is in. -/
theorem Accounts.inside {α : Type} {x : EditorM α} {u : Nat} (hx : Accounts x e)
    (h : Credits (Pi.single token.meter u) e₀ e) :
    Ensures x e (GlimpseInside e₀) fun result e' =>
      GoesOn result → Credits (Pi.single token.meter u) e₀ e' :=
  hx.mono (fun _ hm => ⟨_, _, h, hm⟩) fun _ _ hcredits hgo => h.next (hcredits hgo)

theorem units_publish (e : Editor) (id : Nat) (t : Target) (wanted : List Highlight) (delta : Delta)
    (next : List Highlight) : (e.publish id t wanted delta next).1.units = 10 :=
  (Outcome.units_eq_ten_iff _).mpr (Editor.publish_isSuccess e id t wanted delta next)

/-- A pass goes on unless it was interrupted. -/
theorem Credits.unlessInterrupted {t : Target} {checkpoint : Checkpoint} {k : EditorM Outcome}
    (h : Credits (Pi.single token.meter (Outcome.cancelled checkpoint).units) e₀ e)
    (hk : Ensures k e (GlimpseInside e₀) (PassCredits token e₀)) :
    Ensures (do if (← Act.get).isInterrupted token t then return .cancelled checkpoint else k) e
      (GlimpseInside e₀) (PassCredits token e₀) := by
  rw [ensures_bind, ensures_get, next_ok]
  split
  · rw [ensures_pure]
    exact ⟨fun _ => h, by simp⟩
  · exact hk

theorem reconcileAmong_credits (hrun : ∀ script, Credited Unit (run script)) (hw : w.Tells)
    (ht : token.meter < e₀.tokens.meters.length) (h : Credits (Pi.single token.meter 1) e₀ e)
    (id : Nat) (t : Target) (wanted : List Highlight) :
    Ensures (reconcileAmong run w id t token wanted) e (GlimpseInside e₀)
      (PassCredits token e₀) := by
  -- a portion of work, and then others do something
  have hportion : ∀ {u : Nat} {e : Editor} (units : UInt32) (checkpoint : Checkpoint),
      Credits (Pi.single token.meter u) e₀ e →
      Credits (Pi.single token.meter (u + units.toNat)) e₀
        (w.meanwhile checkpoint (e.worked token units)) := fun units checkpoint h =>
    (h.work ht units).next (hw checkpoint _ (h.work ht units).metered)
  have hclassified : Credits (Pi.single token.meter 6) e₀ _ :=
    hportion unitsClassify .classified h
  have hread : Credits (Pi.single token.meter 7) e₀ _ :=
    hportion unitsSnapshot .snapshotted hclassified
  have hcompared : Credits (Pi.single token.meter 9) e₀ _ := hportion unitsDiff .diffed hread
  unfold reconcileAmong EditorM.work
  rw [ensures_bind, ensures_modify, next_ok, ensures_bind, ensures_modify, next_ok]
  refine Credits.unlessInterrupted hclassified ?_
  rw [ensures_bind, ensures_get, next_ok, ensures_bind, ensures_modify, next_ok, ensures_bind,
    ensures_modify, next_ok]
  refine Credits.unlessInterrupted hread ?_
  split
  · rw [ensures_pure]
    exact ⟨fun _ => hread, by simp⟩
  rw [ensures_bind, ensures_modify, next_ok, ensures_bind, ensures_modify, next_ok]
  refine Credits.unlessInterrupted hcompared ?_
  rw [ensures_bind]
  refine ((composes_credited.isLive hrun t _ hcompared.metered).inside hcompared).mono
    (fun _ hm => hm) ?_
  rintro (halted | live) e' hasked
  · exact ⟨fun hgo => hasked hgo.of_error, by simp⟩
  have hanswered := hasked (goesOn_ok live)
  rw [next_ok]
  split
  · rw [ensures_pure]
    exact ⟨fun _ => hanswered, by simp⟩
  have hlast := hanswered.next (hw .beforeDispatch e' hanswered.metered)
  rw [ensures_bind, ensures_modify, next_ok]
  refine Credits.unlessInterrupted hlast ?_
  rw [ensures_bind, ensures_modifyGet, next_ok, ensures_bind, ensures_modify, next_ok, ensures_pure]
  have hpublished : ∀ delta next, Credits (Pi.single token.meter 10) e₀
      (((w.meanwhile .beforeDispatch e').publish id t wanted delta next).2.worked token
        unitsPublish) :=
    fun delta next =>
      (hlast.next ((calm_publish _ id t wanted delta next).credits hlast.metered)).work ht
        unitsPublish
  refine ⟨fun _ => ?_, fun hdropped => ?_⟩
  · rw [unitsOf, units_publish]
    exact hpublished _ _
  · have hunits := congrArg unitsOf hdropped
    rw [unitsOf, units_publish] at hunits
    cases hunits

/-- **Each exit of a pass has its sum,** whatever others do. -/
theorem passAmong_credits (hrun : ∀ script, Credited Unit (run script)) (hw : w.Tells) (id : Nat)
    (s : Slot) {r : Request} (he : e.Metered) (hr : r.token.meter < e.tokens.meters.length) :
    Ensures (passAmong run w id s r) e (GlimpseInside e) (PassCredits r.token e) := by
  have hbegun : Credits (Pi.single r.token.meter 1) e (e.worked r.token unitsBegin) :=
    credits_worked he hr unitsBegin
  unfold passAmong EditorM.work
  rw [ensures_bind, ensures_modify, next_ok, ensures_bind, ensures_catching]
  have hclassifying := composes_credited.wantedHighlights hrun s.resolver r.tree _ hbegun.metered
  refine (hclassifying.inside hbegun).mono (fun _ hm => hm) ?_
  rintro ((p | _ | _) | wanted) e' h
  · dsimp only
    rw [next_ok, ensures_pure]
    exact ⟨fun _ => h (goesOn_panic p), by simp⟩
  · exact ⟨fun hgo => absurd (goesOn_error.mp hgo) (by simp), by simp⟩
  · exact ⟨fun hgo => absurd (goesOn_error.mp hgo) (by simp), by simp⟩
  · dsimp only
    rw [next_ok]
    exact reconcileAmong_credits hrun hw hr (h (goesOn_ok _)) id s.target wanted

end Inside

/-! ### Whole passes -/

section Whole

variable {run : Script → EditorM Unit} {e e' m : Editor} {id : Nat} {s : Slot} {r : Request}

/-- While a pass is in its gate, it is one that has entered and not left. -/
theorem glimpse_of_inside {inside : Gate (List Highlight)}
    (h : GlimpseInside (e.enterGate id inside) m) : Glimpse e m := by
  obtain ⟨own, e', hcredits, hm⟩ := h
  obtain ⟨evs, hj, hbalance, -⟩ := hcredits.told
  obtain ⟨evs', hj', hbalance', -⟩ := hm.told
  have hexits : ∀ n, exits n [.entered id] = 0 := fun n => rfl
  have hle : ∀ n, exits n (evs' ++ (evs ++ [.entered id])) + entries n [.entered id] ≤
      entries n (evs' ++ (evs ++ [.entered id])) := by
    intro n
    have hn := hbalance' n
    simp only [exits_append, entries_append, hbalance, hexits]
    omega
  refine ⟨hm.metered, evs' ++ (evs ++ [.entered id]), ?_, fun n => ?_, fun hall => ?_⟩
  · rw [hj', hj]
    simp only [List.append_assoc]
    rfl
  · exact Nat.le_trans (Nat.le_add_right _ _) (hle n)
  · have hid := hle id
    rw [hall id, show entries id [.entered id] = 1 by simp [entries, Event.enters]] at hid
    omega

/-- A pass leaves the gate it entered, and the journal tells what it was worth. -/
theorem Credits.leave {inside : Gate (List Highlight)} {u : Nat} {e'' : Editor}
    (h : Credits (Pi.single r.token.meter u) (e.enterGate id inside) e') (ev : Event)
    (hj : e''.journal = ev :: e'.journal) (htokens : e''.tokens = e'.tokens)
    (hnames : e''.tokenNames = e'.tokenNames) (hleaves : ∀ n, ev.leaves n = decide (id = n))
    (hunits : ∀ meter, ev.unitsOn meter = if r.token.meter = meter then u else 0) :
    Credits 0 e e'' := by
  have henters : ∀ n, ev.enters n = false :=
    Event.not_enters_of_leaves ((hleaves id).trans (decide_eq_true rfl))
  refine h.close [.entered id] [ev] rfl rfl hj htokens hnames ?_ ?_
  · intro n
    have hentered : Event.enters n (.entered id) = decide (id = n) := rfl
    have hstays : Event.leaves n (.entered id) = false := rfl
    simp [exits, entries, hentered, hstays, hleaves, henters]
  · intro meter
    have hnothing : Event.unitsOn meter (.entered id) = 0 := rfl
    simp [unitsOn, hunits, hnothing, Pi.single_apply, eq_comm]

theorem reconcile_accounts (hrun : ∀ script, Credited Unit (run script)) (he : e.Metered)
    (hr : r.token.meter < e.tokens.meters.length) : Accounts (reconcile run r) e := by
  unfold Accounts Ensures
  rcases hslot : e.slot? r.doc with _ | ⟨id, s⟩
  · rw [reconcile_of_none hslot]
    refine ⟨by simp, fun _ => (Credits.refl he).tell (.ended none r .notInstalled) ?_ ?_ rfl rfl
      rfl⟩
    · simp [Event.enters, Event.leaves]
    · simp [Event.unitsOn, Outcome.units]
  cases hgate : s.gate.busy with
  | true =>
      rw [reconcile_of_busy hslot hgate]
      refine ⟨by simp, fun _ => (Credits.refl he).tell (.ended (some id) r .dropped) ?_ ?_ rfl rfl
        rfl⟩
      · simp [Event.enters, Event.leaves]
      · simp [Event.unitsOn, Outcome.units]
  | false =>
      rw [reconcile_of_free hslot hgate, passInside_eq]
      obtain ⟨hseen, hcredits, hentered⟩ := passAmong_credits hrun (w := .none)
        (fun _ _ => Credits.refl) id s (e := e.enterGate id s.entered.gate) (r := r) he hr
      generalize passAmong run .none id s r (e.enterGate id s.entered.gate) = inside
        at hseen hcredits hentered ⊢
      refine ⟨fun m hm => ?_, ?_⟩
      · rw [seen_closePass] at hm
        exact glimpse_of_inside (hseen m hm)
      · rcases inside with ⟨seen, (p | _ | _) | o, e'⟩
        · intro _
          have hunwound := hcredits (goesOn_panic p)
          exact hunwound.leave (.unwound id r) rfl rfl rfl (fun _ => rfl) fun _ => rfl
        · exact fun hgo => absurd (goesOn_error.mp hgo) (by simp)
        · exact fun hgo => absurd (goesOn_error.mp hgo) (by simp)
        · intro _
          have ho : o ≠ .dropped := fun heq => hentered (congrArg _ heq)
          have hended := hcredits (goesOn_ok o)
          refine hended.leave (.ended (some id) r o) rfl rfl rfl (fun n => ?_) fun _ => rfl
          simp [Event.leaves, ho]

/-- A pass that succeeds replaces the highlights by what its change makes of them. -/
theorem slot_of_success (hrun : Commanding run) (hfit : Fit e)
    (hslot : e.slot? r.doc = some (id, s)) (h : Succeeded (reconcile run r e).result) :
    ∃ wanted, (classifying run e r id s).result = .ok wanted ∧
      lastWanted id (reconcile run r e).last.journal = some wanted ∧
      (∀ table, (∀ n, e.tablesOf s.resolver n = table) →
        wanted = e.policy.highlights table.style r.tree) ∧
      (reconcile run r e).last.slots[id]? = some (s.shifted wanted) := by
  obtain ⟨-, hs⟩ := Editor.slot?_eq_some.mp hslot
  obtain ⟨e', wanted, d, hfree, hruns, -, hwanted, rfl, hlast⟩ :=
    settled_of_success hrun hfit hslot h
  have henter : Enters e r id s := ⟨hslot, hfree⟩
  have hfit' : Fit (e.enterGate id s.entered.gate) := (Step.enter hs hfree).fit hfit
  have hs' := (hruns.inside hfit' (enterGate_slot hs) rfl).2
  refine ⟨wanted, hwanted, ?_, fun _ => henter.wanted_of_steady hrun hfit hwanted, ?_⟩
  · rw [hlast]
    exact (lastSuccess_settling (Editor.journal_settle _ _ _ _ _ _ _)).2
  · rw [hlast, Editor.slots_settle, List.getElem?_modify_eq, hs']
    rfl

/-- **A pass is worth ten exactly if it replaces the highlights.** -/
theorem slot_after_reconcile (hrun : Commanding run) (hfit : Fit e)
    (hslot : e.slot? r.doc = some (id, s)) :
    if unitsOf (reconcile run r e).result = 10 then
      ∃ wanted, (classifying run e r id s).result = .ok wanted ∧
        lastWanted id (reconcile run r e).last.journal = some wanted ∧
        (∀ table, (∀ n, e.tablesOf s.resolver n = table) →
          wanted = e.policy.highlights table.style r.tree) ∧
        (reconcile run r e).last.slots[id]? = some (s.shifted wanted)
    else (reconcile run r e).last.slots[id]? = some s := by
  by_cases hsuccess : Succeeded (reconcile run r e).result
  · have hunits : unitsOf (reconcile run r e).result = 10 := by
      obtain ⟨o, ho, hsuccess⟩ := hsuccess
      rw [ho]
      exact (Outcome.units_eq_ten_iff o).mpr hsuccess
    rw [if_pos hunits]
    exact slot_of_success hrun hfit hslot hsuccess
  · have hspared := (reconcile_spec hrun hfit r).2.2 hsuccess
    rw [hslot] at hspared
    rw [if_neg]
    · exact hspared.1.slot
    intro hten
    cases hresult : (reconcile run r e).result with
    | error halted =>
        rw [hresult] at hten
        cases hten
    | ok o =>
        rw [hresult] at hten
        exact hsuccess ⟨o, hresult, (Outcome.units_eq_ten_iff o).mp hten⟩

end Whole

/-! ### Sessions -/

section Sessions

variable {run : Script → EditorM Unit}

theorem performWith_credited (hrun : ∀ script, Credited Unit (run script)) (fuel : Nat)
    (c : Command) : Credited Answer (performWith run fuel c) := by
  refine composes_credited.performWith hrun fuel c ?_ ?_
  · rintro name units rfl
    refine credited_withToken fun t e he ht => Accounts.bind (accounts_of_credits ?_)
      fun _ e' h => composes_credited.answer _ e' h.metered
    rw [ensures_modify]
    refine (credits_worked he ht units).tell (.reported t units) (Event.of_not_isReckoned rfl) ?_
      rfl rfl rfl
    simp [Event.unitsOn, Pi.single_apply, eq_comm]
  · rintro doc tree token rfl
    have hanswer : ∀ t e, e.Metered → t.meter < e.tokens.meters.length →
        Accounts (reconcileAnswer run doc tree t) e := by
      intro t e he ht
      have hpass : Accounts (reconcile run ⟨doc, tree, t⟩) e := reconcile_accounts hrun he ht
      refine hpass.catching.bind fun result e' h => ?_
      refine composes_credited.bind composes_credited.get (fun _ => ?_) e' h.metered
      cases result <;> exact composes_credited.pure _
    cases token with
    | some name => exact composes_credited.coordinated (credited_withToken hanswer)
    | none =>
        refine composes_credited.coordinated fun e he => ?_
        have hmade : Credits 0 e { e with tokens := e.tokens.new.2 } :=
          (calm_newMeter e rfl).credits he
        rw [Accounts, ensures_bind, ensures_modifyGet, next_ok]
        refine (hanswer _ _ hmade.metered ?_).after hmade
        simp [Tokens.new, Tokens.wrap]

theorem execute_credited (fuel : Nat) : ∀ script, Credited Unit (execute fuel script) := by
  refine composes_credited.execute (fun run hrun fuel c => ?_) fuel
  refine composes_credited.bind (performWith_credited hrun fuel c) fun answer e he => ?_
  refine accounts_of_credits ?_
  rw [log, ensures_modify]
  exact (Credits.refl he).tell (.answered c.name answer) (fun _ => ⟨rfl, rfl⟩) (fun _ => rfl) rfl
    rfl rfl

theorem perform_credited (fuel : Nat) (c : Command) : Credited Answer (perform fuel c) :=
  performWith_credited (execute_credited fuel) fuel c

theorem converse_credits {fuel : Nat} {script : Script} {e last : Editor}
    {log : List (Answer × List Event)} (he : e.Metered)
    (h : e.converse fuel script = (.ok log, last)) : Credits 0 e last := by
  induction script generalizing e log with
  | nil =>
      cases h
      exact .refl he
  | cons c rest ih =>
      obtain ⟨answer, log', hanswer, hrest, -⟩ := Editor.converse_ok_cons h
      have hfirst := (perform_credited fuel c e he).2
      rw [hanswer] at hfirst
      have hcredits := hfirst (goesOn_ok answer)
      exact hcredits.next (ih hcredits.metered hrest)

variable {policy : Policy} {table : StyleTable} {thread : Bool} {fuel : Nat} {script : Script}
  {log : List (Answer × List Event)} {e m : Editor}

theorem glimpse_of_moment
    (hrun : (Editor.new policy table thread).converse fuel script = (.ok log, e))
    (hm : Editor.Moment fuel e m) : Glimpse (Editor.new policy table thread) m := by
  have hnew : (Editor.new policy table thread).Metered := by
    intro name t ht
    cases ht
  have hcredits := converse_credits hnew hrun
  rcases hm with rfl | ⟨c, hm⟩
  · obtain ⟨evs, hj, hbalance, hread⟩ := hcredits.told
    exact ⟨hcredits.metered, evs, hj, fun n => (hbalance n).le, fun _ => hread⟩
  · exact hcredits.glimpse ((perform_credited fuel c e hcredits.metered).1 m hm)

/-- Whenever no pass is in a gate, each meter shows what the journal tells. -/
theorem workDone_of_idle
    (hrun : (Editor.new policy table thread).converse fuel script = (.ok log, e))
    (hm : Editor.Moment fuel e m) (hidle : ∀ n, m.isBusy n = false) (t : Token) :
    (m.tokens.workDone t).toNat = unitsOn t.meter m.journal % UInt32.size := by
  obtain ⟨evs, hj, -, hread⟩ := (glimpse_of_moment hrun hm).told
  have hevs : m.journal = evs := by
    rw [hj]
    exact List.append_nil evs
  have hbalance : ∀ n, exits n evs = entries n evs := by
    intro n
    have hcount := (alternates_of_moment hrun hm n).count
    rw [hidle n, hevs] at hcount
    exact hcount.symm
  have hnothing : (Editor.new policy table thread).tokens.reading t.meter = 0 := rfl
  have hshown : m.tokens.workDone t = UInt32.ofNat (unitsOn t.meter evs) := by
    rw [← zero_add (UInt32.ofNat _), ← hnothing, ← hread hbalance]
    rfl
  rw [hshown, hevs, UInt32.toNat_ofNat']

/-- **Progress accounting.**  At every moment of every session, however deep inside the callbacks of
passes:

- If no pass is in a gate, and between commands none is, a token shows the work that was reported on
  it directly and what the passes are worth that had it or a copy of it and ended or were left by a
  panic, modulo the range of meters.
- A pass is worth ten exactly if it replaces the highlights of its slot, by what the change to what
  it found makes of them.  Otherwise they are as they were.
- So it is whatever others do before each checkpoint, and even if comparing panics, as long as they
  tell of their own work: the pass moves the meter of its token by what its end is worth.  The pass
  that is run is the case in which nobody does anything. -/
theorem workDone_eq_worth
    (hrun : (Editor.new policy table thread).converse fuel script = (.ok log, e))
    (hm : Editor.Moment fuel e m) :
    (∀ n, e.isBusy n = false) ∧
    ((∀ n, m.isBusy n = false) → ∀ t : Token,
      (m.tokens.workDone t).toNat = unitsOn t.meter m.journal % UInt32.size) ∧
    (∀ r, let course := reconcile (execute fuel) r m
      match m.slot? r.doc with
      | none => unitsOf course.result = 0 ∧ course.last.slots = m.slots
      | some (id, s) =>
        if unitsOf course.result = 10 then
          ∃ wanted, (classifying (execute fuel) m r id s).result = .ok wanted ∧
            lastWanted id course.last.journal = some wanted ∧
            (∀ table, (∀ n, m.tablesOf s.resolver n = table) →
              wanted = m.policy.highlights table.style r.tree) ∧
            course.last.slots[id]? = some (s.shifted wanted)
        else course.last.slots[id]? = some s) ∧
    passInside (execute fuel) = passAmong (execute fuel) .none ∧
    ∀ w : Company, w.Tells → ∀ id s r, r.token.meter < m.tokens.meters.length →
      let course := passAmong (execute fuel) w id s r m
      GoesOn course.result → ∃ evs, course.last.journal = evs ++ m.journal ∧
        ∀ t : Token, course.last.tokens.workDone t = m.tokens.workDone t + UInt32.ofNat
          (unitsOn t.meter evs + if t.meter = r.token.meter then unitsOf course.result else 0) := by
  have hreach : e.Reachable := by
    have hconverse := (Editor.Reachable.new policy table thread).converse fuel script
    rw [hrun] at hconverse
    exact hconverse
  have hfit : Fit m := (hreach.moment hm).fit
  refine ⟨(converse_restores hrun).1, workDone_of_idle hrun hm, fun r => ?_, passInside_eq _, ?_⟩
  · intro course
    rcases hslot : m.slot? r.doc with _ | ⟨id, s⟩
    · rw [show course = _ from reconcile_of_none hslot]
      exact ⟨rfl, rfl⟩
    · exact slot_after_reconcile (execute_commanding fuel) hfit hslot
  · intro w hw id s r hr course hgo
    have hmetered := (glimpse_of_moment hrun hm).metered
    obtain ⟨-, hcredits, -⟩ := passAmong_credits (execute_credited fuel) hw id s hmetered hr
    obtain ⟨evs, hj, -, hread⟩ := (hcredits hgo).told
    refine ⟨evs, hj, fun t => ?_⟩
    rw [← Pi.single_apply]
    exact hread t.meter

end Sessions

/-! ### A pass inside another -/

namespace OneNumber

/-- The surface of the first document, when asked, runs a pass on the second one with the same token
and reports some work on it; both views go before they can be sent anything. -/
def nested : Script :=
  [.surface "left"
      [[.reconcile ⟨2⟩ tree (some "token"), .worked "token" 4, .dispose "left"]] [] false,
    .surface "right" [[.dispose "right"]] [] false,
    .install ⟨1⟩ "left" (.table []) false [], .install ⟨2⟩ "right" (.table []) false [],
    .token "token" none, .reconcile ⟨1⟩ tree (some "token")]

/-- Others cancel the token of the request just before the pass looks for the second time. -/
def cancelling : Company :=
  { Company.none with
    meanwhile := fun checkpoint e =>
      if checkpoint = .snapshotted then { e with tokens := e.tokens.cancel request.token.lineage }
      else e }

theorem cancelling_tells : cancelling.Tells := by
  intro checkpoint e he
  show Credits 0 e (if checkpoint = .snapshotted then _ else e)
  split
  · refine Calm.credits ?_ he
    exact calm_of_same rfl rfl rfl rfl rfl
  · exact .refl he

theorem converse_nested :
    let session := (Editor.new .default .default false).converse 2 nested
    (session.1.isOk, session.2.journal.map (Event.unitsOn 0)) =
      (true, [9, 0, 0, 4, 0, 9, 0, 0, 0, 0, 0]) := by
  simp only [nested, Editor.converse, perform, execute, performWith.eq_def, reconcileAnswer,
    reconcile, passInside, reconcileWith, isLive, askSurface, wantedHighlights,
    Policy.classifyTree_eq_auction]
  cbv

theorem passAmong_cancelling :
    let course := passAmong (execute 1) cancelling 0 slot request (installed [])
    (course.result, course.last.journal) = (.ok (.cancelled .snapshotted), []) := by
  simp only [passAmong, wantedHighlights, Policy.classifyTree_eq_auction]
  cbv

end OneNumber

open OneNumber in
/-- Two passes share a token, one inside the other, and another pass is cancelled half-way. -/
theorem workDone_eq_worth_nested :
    let e := ((Editor.new .default .default false).converse 2 nested).2
    let course := passAmong (execute 1) cancelling 0 slot request (installed [])
    unitsOn 0 e.journal = 9 + 4 + 9 ∧ (e.tokens.workDone request.token).toNat = 22 ∧
      cancelling.Tells ∧ course.result = .ok (.cancelled .snapshotted) ∧
      course.last.tokens.workDone request.token = 7 := by
  intro e course
  obtain ⟨hok, htold⟩ := Prod.mk.inj converse_nested
  obtain ⟨hresult, hjournal⟩ := Prod.mk.inj passAmong_cancelling
  have hunits : unitsOn 0 e.journal = 9 + 4 + 9 := by
    rw [unitsOn, htold]
    rfl
  refine ⟨hunits, ?_, cancelling_tells, hresult, ?_⟩
  · rcases hrun : (Editor.new .default .default false).converse 2 nested with ⟨_ | log, last⟩
    · rw [hrun] at hok
      cases hok
    · obtain ⟨hidle, hshown, -⟩ := workDone_eq_worth hrun (.inl rfl)
      have hlast : e = last := congrArg Prod.snd hrun
      rw [hlast] at hunits ⊢
      rw [hshown hidle, show request.token.meter = 0 from rfl, hunits]
      rfl
  · have hrun : (Editor.new .default .default false).converse 1 [.surface "view" [] [] false,
        .install ⟨1⟩ "view" (.table []) false [], .token "token" none] =
        (.ok [(.done, []), (.done, []), (.done, [])], installed []) := rfl
    obtain ⟨-, -, -, -, hamong⟩ := workDone_eq_worth hrun (.inl rfl)
    obtain ⟨evs, hj, hread⟩ := hamong cancelling cancelling_tells 0 slot request (by decide)
      (hresult ▸ goesOn_ok _)
    have hevs : evs = [] := (List.append_eq_nil_iff.mp (hj.symm.trans hjournal)).1
    refine (hread request.token).trans ?_
    rw [hevs, if_pos rfl, show unitsOf _ = 7 from congrArg unitsOf hresult]
    rfl

end Highlighting
