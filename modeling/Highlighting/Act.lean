/-
Actions on a state that may halt.

What an action did before it halted stays done.  That is how callbacks that fail
in the middle behave, and why the state comes back in either case.  On its way an
action may let others look at the state; what they saw comes back as well.
-/
namespace Highlighting

/-- The course of an action: the states others saw on the way, how it ended, and the state it
left behind. -/
structure Course (σ ε α : Type) where
  seen : List σ := []
  result : Except ε α
  last : σ

/-- An action on states `σ` that returns an `α` or halts with an `ε`. -/
def Act (σ ε α : Type) : Type := σ → Course σ ε α

namespace Act

variable {σ ε α β γ : Type}

protected def pure (a : α) : Act σ ε α := fun s => { result := .ok a, last := s }

protected def bind (x : Act σ ε α) (f : α → Act σ ε β) : Act σ ε β := fun s =>
  match x s with
  | ⟨seen, .ok a, s'⟩ =>
    let c := f a s'
    { c with seen := seen ++ c.seen }
  | ⟨seen, .error h, s'⟩ => ⟨seen, .error h, s'⟩

instance : Monad (Act σ ε) where
  pure := Act.pure
  bind := Act.bind

@[simp] theorem pure_apply (a : α) (s : σ) : (pure a : Act σ ε α) s = ⟨[], .ok a, s⟩ := rfl

theorem bind_of_ok {x : Act σ ε α} {s s' : σ} {seen : List σ} {a : α} (h : x s = ⟨seen, .ok a, s'⟩)
    (f : α → Act σ ε β) : (x >>= f) s = { f a s' with seen := seen ++ (f a s').seen } := by
  change Act.bind x f s = _
  rw [Act.bind, h]

theorem bind_of_error {x : Act σ ε α} {s s' : σ} {seen : List σ} {e : ε}
    (h : x s = ⟨seen, .error e, s'⟩) (f : α → Act σ ε β) :
    (x >>= f) s = ⟨seen, .error e, s'⟩ := by
  change Act.bind x f s = _
  rw [Act.bind, h]

private theorem map_id_apply (x : Act σ ε α) : id <$> x = x := by
  funext s
  change Act.bind x Act.pure s = x s
  unfold Act.bind
  rcases x s with ⟨_, _ | _, _⟩
  · rfl
  · simp [Act.pure]

private theorem bind_bind (x : Act σ ε α) (f : α → Act σ ε β) (g : β → Act σ ε γ) :
    x >>= f >>= g = x >>= fun a => f a >>= g := by
  funext s
  rcases hx : x s with ⟨seen, e | a, s'⟩
  · rw [bind_of_error hx, bind_of_error (bind_of_error hx f)]
  · rw [bind_of_ok hx]
    rcases hf : f a s' with ⟨seen', e | b, s''⟩
    · rw [bind_of_error hf, bind_of_error (bind_of_ok hx f |>.trans (by rw [hf]))]
    · rw [bind_of_ok hf, bind_of_ok (bind_of_ok hx f |>.trans (by rw [hf]))]
      simp

instance : LawfulMonad (Act σ ε) :=
  LawfulMonad.mk' (Act σ ε) map_id_apply (fun a f => funext fun s => by
    rw [bind_of_ok (pure_apply a s)]
    rfl) bind_bind

/-- The state. -/
def get : Act σ ε σ := fun s => { result := .ok s, last := s }

/-- Changes the state. -/
def modify (f : σ → σ) : Act σ ε Unit := fun s => { result := .ok (), last := f s }

/-- Takes a value out of the state and changes it. -/
def modifyGet (f : σ → α × σ) : Act σ ε α := fun s => { result := .ok (f s).1, last := (f s).2 }

theorem get_bind_apply (f : σ → Act σ ε α) (s : σ) : (get >>= f) s = f s s := rfl

theorem modify_bind_apply (g : σ → σ) (f : Unit → Act σ ε α) (s : σ) :
    (modify g >>= f) s = f () (g s) := rfl

def halt (h : ε) : Act σ ε α := fun s => { result := .error h, last := s }

/-- Lets others look at the state. -/
def look : Act σ ε Unit := fun s => { seen := [s], result := .ok (), last := s }

/-- Does an action and returns how it ended. -/
def attempt (x : Act σ ε α) : Act σ ε (Except ε α) := fun s =>
  let c := x s
  { seen := c.seen, result := .ok c.result, last := c.last }

/-- Does an action and then changes the state, even if the action halts. -/
def ensuring (x : Act σ ε α) (f : σ → σ) : Act σ ε α := fun s =>
  let c := x s
  { c with last := f c.last }

end Act

end Highlighting
