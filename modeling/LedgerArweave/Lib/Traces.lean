import LedgerArweave.Lib.Program

/-!
# Programs that note what they do

A program over `Traced ι σ` works on a state of `σ` and notes every step it takes, with the state the step left. The notes do
not change what the program computes: `Erases x y` says that `x` without its notes is `y`.
-/

namespace Lib

section Traces

variable {ι ε σ α β : Type}

/-- A point of a run: what was done, and the state it left. -/
structure Point (ι σ : Type) where
  did : ι
  state : σ

/-- A state, and the points of the run up to it. -/
structure Traced (ι σ : Type) where
  state : σ
  trace : List (Point ι σ)

/-- A step is taken and noted. -/
def Traced.step (t : Traced ι σ) (i : ι) (f : σ → σ) : Traced ι σ := ⟨f t.state, t.trace ++ [⟨i, f t.state⟩]⟩

/-- Take a step and note it. -/
def perform (i : ι) (f : σ → σ) : EStateM ε (Traced ι σ) Unit := modify fun t => t.step i f

/-- A noted step is taken. -/
@[simp] theorem run_perform (i : ι) (f : σ → σ) (t : Traced ι σ) :
    (perform i f : EStateM ε (Traced ι σ) Unit).run t = .ok () (t.step i f) := rfl

/-- The result of a run without the notes. -/
def untraced (r : EStateM.Result ε (Traced ι σ) α) : EStateM.Result ε σ α :=
  match r with
  | .ok a t => .ok a t.state
  | .error e t => .error e t.state

/-- Without its notes, the first program is the second. -/
def Erases (x : EStateM ε (Traced ι σ) α) (y : EStateM ε σ α) : Prop := ∀ t, untraced (x.run t) = y.run t.state

/-- Returning notes nothing. -/
theorem Erases.pure (a : α) : Erases (pure a : EStateM ε (Traced ι σ) α) (pure a) := fun _ => rfl

/-- Nor does stopping. -/
theorem Erases.throw (e : ε) : Erases (throw e : EStateM ε (Traced ι σ) α) (throw e) := fun _ => rfl

/-- Without the note, a noted step is a write. -/
theorem Erases.perform (i : ι) (f : σ → σ) : Erases (perform i f : EStateM ε (Traced ι σ) Unit) (modify f) := fun _ => rfl

/-- The rule of sequence. -/
theorem Erases.bind {x : EStateM ε (Traced ι σ) α} {y : EStateM ε σ α} {f : α → EStateM ε (Traced ι σ) β}
    {g : α → EStateM ε σ β} (hxy : Erases x y) (hfg : ∀ a, Erases (f a) (g a)) : Erases (x >>= f) (y >>= g) := by
  intro t
  have h := hxy t
  cases hx : x.run t with
  | ok a t' =>
    rw [hx] at h
    rw [run_bind_of_ok hx, run_bind_of_ok h.symm]
    exact hfg a t'
  | error e t' =>
    rw [hx] at h
    rw [run_bind_of_error hx, run_bind_of_error h.symm]
    rfl

/-- A note that changes nothing is not missed. -/
theorem Erases.note_bind {i : ι} {f : Unit → EStateM ε (Traced ι σ) β} {y : EStateM ε σ β} (h : Erases (f ()) y) :
    Erases (Lib.perform i id >>= f) y := by
  intro t
  rw [run_bind_of_ok (run_perform i id t)]
  exact h _

/-- A note behind a program can be left out. -/
theorem Erases.bind_note {i : ι} {x : EStateM ε (Traced ι σ) Unit} {y : EStateM ε σ Unit} (h : Erases x y) :
    Erases (x >>= fun _ => Lib.perform i id) y := by
  intro t
  rw [← h t]
  cases hx : x.run t with
  | ok a t' =>
    rw [run_bind_of_ok hx]
    rfl
  | error e t' => rw [run_bind_of_error hx]

/-- Both programs look at the state before they go on. -/
theorem Erases.get_bind {f : Traced ι σ → EStateM ε (Traced ι σ) β} {g : σ → EStateM ε σ β}
    (h : ∀ t, Erases (f t) (g t.state)) : Erases (get >>= f) (get >>= g) := by
  intro t
  rw [run_bind_of_ok (run_get t), run_bind_of_ok (run_get t.state)]
  exact h t t

/-- A branch on the same condition. -/
theorem Erases.ite {c : Prop} [Decidable c] {x x' : EStateM ε (Traced ι σ) α} {y y' : EStateM ε σ α} (hx : Erases x y)
    (hy : Erases x' y') : Erases (if c then x else x') (if c then y else y') := by
  split
  · exact hx
  · exact hy

/-- A program that notes nothing, run on the state. -/
theorem Erases.zoom (x : EStateM ε σ α) :
    Erases (Lib.zoom Traced.state (fun s t => { t with state := s }) x : EStateM ε (Traced ι σ) α) x := by
  intro t
  rw [run_zoom]
  cases x.run t.state <;> rfl

end Traces

end Lib
