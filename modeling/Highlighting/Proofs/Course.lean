/-
What can be said of the course of an action.

`Ensures x s M Q` says of the action `x`, begun in `s`, that others see only states
with `M` on the way and that it ends as `Q` says.  Actions are deterministic, so
every way of putting them together has an equation here, and opening an action
along its text is rewriting by them.

`Keeps R x` is the special case invariants are made of: whatever is seen, and what
is left behind, stands in the relation `R` to the state the action began in.  For
a preorder it goes through sequences and loops.
-/
import Highlighting.Editor.Callback
import Mathlib

namespace Highlighting

namespace Act

variable {σ ε α β : Type} {M N : σ → Prop} {s : σ}

/-- Begun in `s`, the action shows only states with `M` and ends as `Q` says. -/
def Ensures (x : Act σ ε α) (s : σ) (M : σ → Prop) (Q : Except ε α → σ → Prop) : Prop :=
  (∀ m ∈ (x s).seen, M m) ∧ Q (x s).result (x s).last

theorem Ensures.mono {x : Act σ ε α} {P Q : Except ε α → σ → Prop} (h : Ensures x s M P)
    (hM : ∀ m, M m → N m) (hQ : ∀ r s', P r s' → Q r s') : Ensures x s N Q :=
  ⟨fun m hm => hM m (h.1 m hm), hQ _ _ h.2⟩

theorem Ensures.with_result {x : Act σ ε α} {Q : Except ε α → σ → Prop} (h : Ensures x s M Q) :
    Ensures x s M fun r s' => (x s).result = r ∧ Q r s' := ⟨h.1, rfl, h.2⟩

/-- What follows an action that ended in `s'`: the next one, unless it halted. -/
def Next (f : α → Act σ ε β) (M : σ → Prop) (Q : Except ε β → σ → Prop) :
    Except ε α → σ → Prop
  | .ok a, s' => Ensures (f a) s' M Q
  | .error h, s' => Q (.error h) s'

theorem ensures_bind {x : Act σ ε α} {f : α → Act σ ε β} {Q : Except ε β → σ → Prop} :
    Ensures (x >>= f) s M Q ↔ Ensures x s M (Next f M Q) := by
  rcases hx : x s with ⟨seen, e | a, s'⟩
  · simp only [Ensures, bind_of_error hx, hx, Next]
  · simp only [Ensures, bind_of_ok hx, hx, Next, List.mem_append]
    constructor
    · rintro ⟨hseen, hQ⟩
      exact ⟨fun m hm => hseen m (Or.inl hm), fun m hm => hseen m (Or.inr hm), hQ⟩
    · rintro ⟨hseen, hseen', hQ⟩
      exact ⟨fun m hm => hm.elim (hseen m) (hseen' m), hQ⟩

section Primitives

variable {Q : Except ε α → σ → Prop}

@[simp] theorem ensures_pure {a : α} : Ensures (pure a) s M Q ↔ Q (.ok a) s := by
  simp [Ensures]

@[simp] theorem ensures_get {Q : Except ε σ → σ → Prop} : Ensures get s M Q ↔ Q (.ok s) s := by
  simp [Ensures, get]

@[simp] theorem ensures_modify {Q : Except ε Unit → σ → Prop} {f : σ → σ} :
    Ensures (modify f) s M Q ↔ Q (.ok ()) (f s) := by
  simp [Ensures, modify]

@[simp] theorem ensures_modifyGet {f : σ → α × σ} :
    Ensures (modifyGet f) s M Q ↔ Q (.ok (f s).1) (f s).2 := by
  simp [Ensures, modifyGet]

@[simp] theorem ensures_halt {h : ε} : Ensures (halt h) s M Q ↔ Q (.error h) s := by
  simp [Ensures, halt]

@[simp] theorem ensures_look {Q : Except ε Unit → σ → Prop} :
    Ensures look s M Q ↔ M s ∧ Q (.ok ()) s := by
  simp [Ensures, look]

@[simp] theorem ensures_attempt {x : Act σ ε α} {Q : Except ε (Except ε α) → σ → Prop} :
    Ensures (attempt x) s M Q ↔ Ensures x s M fun r s' => Q (.ok r) s' := Iff.rfl

@[simp] theorem ensures_ensuring {x : Act σ ε α} {f : σ → σ} :
    Ensures (ensuring x f) s M Q ↔ Ensures x s M fun r s' => Q r (f s') := Iff.rfl

@[simp] theorem next_ok {f : β → Act σ ε α} {b : β} : Next f M Q (.ok b) s ↔ Ensures (f b) s M Q :=
  Iff.rfl

@[simp] theorem next_error {f : β → Act σ ε α} {h : ε} :
    Next f M Q (.error h) s ↔ Q (.error h) s := Iff.rfl

end Primitives

/-! ### Relations that actions keep -/

/-- Whatever is seen of the action, and what it leaves behind, is related to where it began. -/
def Keeps (R : σ → σ → Prop) (x : Act σ ε α) : Prop :=
  ∀ s, Ensures x s (R s) fun _ s' => R s s'

variable {R : σ → σ → Prop}

theorem Keeps.modify {f : σ → σ} (h : ∀ s, R s (f s)) : Keeps R (modify f : Act σ ε Unit) :=
  fun s => by
    rw [ensures_modify]
    exact h s

theorem Keeps.modifyGet {f : σ → α × σ} (h : ∀ s, R s (f s).2) :
    Keeps R (modifyGet f : Act σ ε α) := fun s => by
  rw [ensures_modifyGet]
  exact h s

theorem Keeps.weaken {S : σ → σ → Prop} {x : Act σ ε α} (h : Keeps R x)
    (hS : ∀ s s', R s s' → S s s') : Keeps S x := fun s =>
  (h s).mono (fun _ hm => hS _ _ hm) fun _ _ hs => hS _ _ hs

/-- An action that begins by reading the state knows where it began. -/
theorem Keeps.get_bind {f : σ → Act σ ε β} (h : ∀ s, Ensures (f s) s (R s) fun _ s' => R s s') :
    Keeps R (get >>= f) := fun s => by
  rw [ensures_bind, ensures_get, next_ok]
  exact h s

variable [IsPreorder σ R]

theorem Keeps.pure (a : α) : Keeps R (pure a : Act σ ε α) := fun s => by
  rw [ensures_pure]
  exact refl s

theorem Keeps.halt (h : ε) : Keeps R (halt h : Act σ ε α) := fun s => by
  rw [ensures_halt]
  exact refl s

theorem Keeps.look : Keeps R (look : Act σ ε Unit) := fun s => by
  rw [ensures_look]
  exact ⟨refl s, refl s⟩

/-- One action after another, the second knowing where and with what the first one ended. -/
theorem Keeps.bind_at {x : Act σ ε α} {f : α → Act σ ε β} {P : α → σ → Prop}
    (hx : Ensures x s (R s) fun r s' => R s s' ∧ ∀ a, r = .ok a → P a s')
    (hf : ∀ a s', R s s' → P a s' → Ensures (f a) s' (R s') fun _ s'' => R s' s'') :
    Ensures (x >>= f) s (R s) fun _ s' => R s s' := by
  rw [ensures_bind]
  refine hx.mono (fun _ hm => hm) fun r s' hs => ?_
  cases r with
  | error h => exact hs.1
  | ok a =>
      exact (hf a s' hs.1 (hs.2 a rfl)).mono (fun _ hm => IsTrans.trans _ _ _ hs.1 hm)
        fun _ _ h => IsTrans.trans _ _ _ hs.1 h

theorem Keeps.bind {x : Act σ ε α} {f : α → Act σ ε β} (hx : Keeps R x)
    (hf : ∀ a, Keeps R (f a)) : Keeps R (x >>= f) := fun s =>
  Keeps.bind_at (P := fun _ _ => True)
    ((hx s).mono (fun _ hm => hm) fun _ _ hs => ⟨hs, fun _ _ => trivial⟩)
    fun a s' _ _ => hf a s'

theorem Keeps.forM {f : α → Act σ ε Unit} {xs : List α} (hf : ∀ a ∈ xs, Keeps R (f a)) :
    Keeps R (xs.forM f) := by
  induction xs with
  | nil => exact Keeps.pure ()
  | cons a rest ih =>
      rw [List.forall_mem_cons] at hf
      change Keeps R (f a >>= fun _ => rest.forM f)
      exact Keeps.bind hf.1 fun _ => ih hf.2

theorem Keeps.mapM {f : α → Act σ ε β} (hf : ∀ a, Keeps R (f a)) (xs : List α) :
    Keeps R (xs.mapM f) := by
  induction xs with
  | nil =>
      rw [List.mapM_nil]
      exact Keeps.pure []
  | cons a rest ih =>
      rw [List.mapM_cons]
      exact Keeps.bind (hf a) fun b => Keeps.bind ih fun bs => Keeps.pure (b :: bs)

omit [IsPreorder σ R] in
theorem Keeps.attempt {x : Act σ ε α} (h : Keeps R x) : Keeps R (attempt x) := fun s => by
  rw [ensures_attempt]
  exact h s

theorem Keeps.ensuring {x : Act σ ε α} {f : σ → σ} (hx : Keeps R x) (hf : ∀ s, R s (f s)) :
    Keeps R (ensuring x f) := fun s => by
  rw [ensures_ensuring]
  exact (hx s).mono (fun _ hm => hm) fun _ s' h => IsTrans.trans _ _ _ h (hf s')

end Act

/-! ### Catching panics -/

theorem EditorM.ensures_catching {α : Type} {x : EditorM α} {e : Editor} {M : Editor → Prop}
    {Q : Except Halt (Except Payload α) → Editor → Prop} :
    Act.Ensures (catching x) e M Q ↔ Act.Ensures x e M fun r e' =>
      match r with
      | .ok a => Q (.ok (.ok a)) e'
      | .error (.panic p) => Q (.ok (.error p)) e'
      | .error h => Q (.error h) e' := by
  unfold catching
  rw [Act.ensures_bind, Act.ensures_attempt]
  constructor <;> refine fun h => h.mono (fun _ hm => hm) fun r e' hr => ?_
  all_goals
    rcases r with (_ | _ | _) | _ <;> simpa using hr

theorem EditorM.keeps_catching {α : Type} {R : Editor → Editor → Prop} {x : EditorM α}
    (h : Act.Keeps R x) : Act.Keeps R (catching x) := by
  intro e
  rw [ensures_catching]
  refine (h e).mono (fun _ hm => hm) fun r e' hr => ?_
  split <;> exact hr

end Highlighting
