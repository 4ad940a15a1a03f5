import Mathlib.Tactic.Common

/-!
# Imperative programs that fail and keep their state

`EStateM ε σ` is the shape of C code with an error code: a program either returns or stops early with an error, and in both
cases the state is the one its writes left behind. Here are the equations that run such a program step by step and a small
logic of triples: `Triple P x Q E` says that `x`, started in a state of `P`, ends in `Q` when it returns and in `E` when it
stops with an error.
-/

namespace Lib

section Run

variable {ε σ α β : Type}

/-- A program that only returns leaves the state alone. -/
@[simp] theorem run_pure (a : α) (s : σ) : (pure a : EStateM ε σ α).run s = .ok a s := rfl

/-- A program that stops keeps what was written before. -/
@[simp] theorem run_throw (e : ε) (s : σ) : (throw e : EStateM ε σ α).run s = .error e s := rfl

/-- Reading the state leaves it alone. -/
@[simp] theorem run_get (s : σ) : (get : EStateM ε σ σ).run s = .ok s s := rfl

/-- A write is done by the time it returns. -/
@[simp] theorem run_modify (f : σ → σ) (s : σ) : (modify f : EStateM ε σ PUnit).run s = .ok ⟨⟩ (f s) := rfl

/-- A sequence goes on from the state of its first part, unless that one stopped. -/
theorem run_bind (x : EStateM ε σ α) (f : α → EStateM ε σ β) (s : σ) :
    (x >>= f).run s = match x.run s with
      | .ok a s' => (f a).run s'
      | .error e s' => .error e s' := rfl

/-- A sequence whose first part returns is its second part. -/
@[simp] theorem run_bind_of_ok {x : EStateM ε σ α} {s s' : σ} {a : α} (h : x.run s = .ok a s') (f : α → EStateM ε σ β) :
    (x >>= f).run s = (f a).run s' := by
  rw [run_bind, h]

/-- A sequence whose first part stops stops there. -/
@[simp] theorem run_bind_of_error {x : EStateM ε σ α} {s s' : σ} {e : ε} (h : x.run s = .error e s')
    (f : α → EStateM ε σ β) : (x >>= f).run s = .error e s' := by
  rw [run_bind, h]

/-- A branch is one of its two programs. -/
@[simp] theorem run_ite (c : Prop) [Decidable c] (x y : EStateM ε σ α) (s : σ) :
    (if c then x else y).run s = if c then x.run s else y.run s := by
  split <;> rfl

/-- A sequence returns when its first part returns and its second part returns from there. -/
theorem run_bind_eq_ok {x : EStateM ε σ α} {f : α → EStateM ε σ β} {s s' : σ} {b : β} :
    (x >>= f).run s = .ok b s' ↔ ∃ a s₁, x.run s = .ok a s₁ ∧ (f a).run s₁ = .ok b s' := by
  rw [run_bind]
  cases h : x.run s with
  | ok a s₁ => simp
  | error e s₁ => simp

/-- A sequence stops with an error when its first part does, or when the first part returns and the second part stops. -/
theorem run_bind_eq_error {x : EStateM ε σ α} {f : α → EStateM ε σ β} {s s' : σ} {e : ε} :
    (x >>= f).run s = .error e s' ↔ x.run s = .error e s' ∨ ∃ a s₁, x.run s = .ok a s₁ ∧ (f a).run s₁ = .error e s' := by
  rw [run_bind]
  cases h : x.run s with
  | ok a s₁ => simp
  | error e₁ s₁ => simp

/-- The same of a sequence without a state. -/
theorem except_bind_ok {x : Except ε α} {f : α → Except ε β} {b : β} (h : x >>= f = .ok b) : ∃ a, x = .ok a ∧ f a = .ok b := by
  cases x with
  | ok a => exact ⟨a, rfl, h⟩
  | error e => cases h

end Run

/-! ## Programs on a part of the state, and errors as values -/

section Zoom

variable {ε ε' σ τ α : Type}

/-- A program on a part of the state, run on the whole. -/
def zoom (part : σ → τ) (put : τ → σ → σ) (x : EStateM ε τ α) : EStateM ε σ α := fun s =>
  match x.run (part s) with
  | .ok a t => .ok a (put t s)
  | .error e t => .error e (put t s)

/-- A program on a part changes that part, whether it returns or stops. -/
theorem run_zoom (part : σ → τ) (put : τ → σ → σ) (x : EStateM ε τ α) (s : σ) :
    (zoom part put x).run s = match x.run (part s) with
      | .ok a t => .ok a (put t s)
      | .error e t => .error e (put t s) := rfl

/-- Run a program and return the error it stops with as a value, as a caller does that looks at an error code. -/
def attempt (x : EStateM ε σ α) : EStateM ε' σ (Except ε α) := fun s =>
  match x.run s with
  | .ok a s' => .ok (.ok a) s'
  | .error e s' => .ok (.error e) s'

/-- An attempt returns in either case, with what its program left. -/
theorem run_attempt (x : EStateM ε σ α) (s : σ) :
    (attempt x : EStateM ε' σ (Except ε α)).run s = match x.run s with
      | .ok a s' => .ok (.ok a) s'
      | .error e s' => .ok (.error e) s' := rfl

variable {part : σ → τ} {put : τ → σ → σ} {x : EStateM ε τ α} {s : σ} {t : τ}

/-- The whole after a program on a part that returns. -/
theorem run_zoom_of_ok {a : α} (h : x.run (part s) = .ok a t) : (zoom part put x).run s = .ok a (put t s) := by
  rw [run_zoom, h]

/-- The whole after a program on a part that stops. -/
theorem run_zoom_of_error {e : ε} (h : x.run (part s) = .error e t) : (zoom part put x).run s = .error e (put t s) := by
  rw [run_zoom, h]

/-- A caller that looks at the error code, when the program on a part returns. -/
theorem run_attempt_zoom_of_ok {a : α} (h : x.run (part s) = .ok a t) :
    (attempt (zoom part put x) : EStateM ε' σ (Except ε α)).run s = .ok (.ok a) (put t s) := by
  rw [run_attempt, run_zoom_of_ok h]

/-- A caller that looks at the error code, when the program on a part stops. -/
theorem run_attempt_zoom_of_error {e : ε} (h : x.run (part s) = .error e t) :
    (attempt (zoom part put x) : EStateM ε' σ (Except ε α)).run s = .ok (.error e) (put t s) := by
  rw [run_attempt, run_zoom_of_error h]

end Zoom

/-- The state a program ends in. -/
def stateAfter {ε σ α : Type} (r : EStateM.Result ε σ α) : σ :=
  match r with
  | .ok _ s => s
  | .error _ s => s

/-- The value a program returns, if it does. -/
def returned {ε σ α : Type} (r : EStateM.Result ε σ α) : Option α :=
  match r with
  | .ok a _ => some a
  | .error _ _ => none

/-- A program of which a part of the value it returns is known returns. -/
theorem exists_ok_of_returned {ε σ α β : Type} {r : EStateM.Result ε σ α} {f : α → β} {b : β}
    (h : (returned r).map f = some b) : ∃ a s, r = .ok a s ∧ f a = b := by
  cases r with
  | ok a s => exact ⟨a, s, rfl, Option.some.inj h⟩
  | error e s => cases h

/-! ## Triples -/

section Triple

variable {ε σ α β : Type}

/-- Started in a state of `P`, the program ends in `Q` when it returns and in `E` when it stops with an error. -/
def Triple (P : σ → Prop) (x : EStateM ε σ α) (Q : α → σ → Prop) (E : ε → σ → Prop) : Prop :=
  ∀ s, P s → (∀ a s', x.run s = .ok a s' → Q a s') ∧ (∀ e s', x.run s = .error e s' → E e s')

variable {P P' : σ → Prop} {x : EStateM ε σ α} {Q Q' : α → σ → Prop} {E E' : ε → σ → Prop}

/-- What a triple says of a program that returned. -/
theorem Triple.ok (h : Triple P x Q E) {s s' : σ} {a : α} (hs : P s) (hx : x.run s = .ok a s') : Q a s' :=
  (h s hs).1 a s' hx

/-- What a triple says of a program that stopped. -/
theorem Triple.error (h : Triple P x Q E) {s s' : σ} {e : ε} (hs : P s) (hx : x.run s = .error e s') : E e s' :=
  (h s hs).2 e s' hx

/-- What a triple asks for at a state from which the program is known to return. -/
theorem Triple.at_ok {s s' : σ} {a : α} (hx : x.run s = .ok a s') (hq : Q a s') :
    (∀ a s', x.run s = .ok a s' → Q a s') ∧ ∀ e s', x.run s = .error e s' → E e s' := by
  constructor
  · intro b s₁ h
    rw [hx] at h
    cases h
    exact hq
  · intro e s₁ h
    rw [hx] at h
    cases h

/-- What a triple asks for at a state from which the program is known to stop with an error. -/
theorem Triple.at_error {s s' : σ} {e : ε} (hx : x.run s = .error e s') (he : E e s') :
    (∀ a s', x.run s = .ok a s' → Q a s') ∧ ∀ e s', x.run s = .error e s' → E e s' := by
  constructor
  · intro b s₁ h
    rw [hx] at h
    cases h
  · intro e' s₁ h
    rw [hx] at h
    cases h
    exact he

/-- The rule of consequence. -/
theorem Triple.conseq (h : Triple P x Q E) (hP : ∀ s, P' s → P s) (hQ : ∀ a s, Q a s → Q' a s)
    (hE : ∀ e s, E e s → E' e s) : Triple P' x Q' E' :=
  fun s hs => ⟨fun a s' hx => hQ a s' (h.ok (hP s hs) hx), fun e s' hx => hE e s' (h.error (hP s hs) hx)⟩

/-- The rule of returning. -/
theorem Triple.pure {a : α} (h : ∀ s, P s → Q a s) : Triple P (pure a : EStateM ε σ α) Q E := by
  intro s hs
  constructor
  · intro b s' hx
    rw [run_pure] at hx
    cases hx
    exact h s hs
  · intro e s' hx
    rw [run_pure] at hx
    cases hx

/-- The rule of stopping: what holds before must do for the error. -/
theorem Triple.throw {e : ε} (h : ∀ s, P s → E e s) : Triple P (throw e : EStateM ε σ α) Q E := by
  intro s hs
  constructor
  · intro b s' hx
    rw [run_throw] at hx
    cases hx
  · intro e' s' hx
    rw [run_throw] at hx
    cases hx
    exact h s hs

/-- The rule of a write. -/
theorem Triple.modify {f : σ → σ} {Q : PUnit → σ → Prop} (h : ∀ s, P s → Q ⟨⟩ (f s)) :
    Triple P (modify f : EStateM ε σ PUnit) Q E := by
  intro s hs
  constructor
  · intro b s' hx
    rw [run_modify] at hx
    cases hx
    exact h s hs
  · intro e s' hx
    rw [run_modify] at hx
    cases hx

/-- The rule of reading the state. -/
theorem Triple.get {Q : σ → σ → Prop} (h : ∀ s, P s → Q s s) : Triple P (get : EStateM ε σ σ) Q E := by
  intro s hs
  constructor
  · intro b s' hx
    rw [run_get] at hx
    cases hx
    exact h s hs
  · intro e s' hx
    rw [run_get] at hx
    cases hx

/-- The rule of sequence. -/
theorem Triple.bind {f : α → EStateM ε σ β} {R : β → σ → Prop} (hx : Triple P x Q E)
    (hf : ∀ a, Triple (Q a) (f a) R E) : Triple P (x >>= f) R E := by
  intro s hs
  constructor
  · intro b s' h
    obtain ⟨a, s₁, h1, h2⟩ := run_bind_eq_ok.1 h
    exact (hf a).ok (hx.ok hs h1) h2
  · intro e s' h
    rcases run_bind_eq_error.1 h with h1 | ⟨a, s₁, h1, h2⟩
    · exact hx.error hs h1
    · exact (hf a).error (hx.ok hs h1) h2

/-- The rule of a branch; each program may use what decided for it. -/
theorem Triple.ite {c : Prop} [Decidable c] {y : EStateM ε σ α} (hx : c → Triple P x Q E) (hy : ¬c → Triple P y Q E) :
    Triple P (if c then x else y) Q E := by
  split
  · rename_i h
    exact hx h
  · rename_i h
    exact hy h

/-- The program keeps an invariant, whether it returns or stops. -/
def Keeps (I : σ → Prop) (x : EStateM ε σ α) : Prop := Triple I x (fun _ => I) (fun _ => I)

/-- Returning keeps every invariant. -/
theorem Keeps.pure {I : σ → Prop} {a : α} : Keeps I (pure a : EStateM ε σ α) := Triple.pure fun _ h => h

/-- Stopping keeps every invariant. -/
theorem Keeps.throw {I : σ → Prop} {e : ε} : Keeps I (throw e : EStateM ε σ α) := Triple.throw fun _ h => h

/-- Reading keeps every invariant. -/
theorem Keeps.get {I : σ → Prop} : Keeps I (get : EStateM ε σ σ) := Triple.get fun _ h => h

/-- A write keeps an invariant that it keeps on states. -/
theorem Keeps.modify {I : σ → Prop} {f : σ → σ} (h : ∀ s, I s → I (f s)) :
    Keeps I (modify f : EStateM ε σ PUnit) := Triple.modify h

/-- Programs that keep an invariant keep it one after the other. -/
theorem Keeps.bind {I : σ → Prop} {f : α → EStateM ε σ β} (hx : Keeps I x) (hf : ∀ a, Keeps I (f a)) :
    Keeps I (x >>= f) := Triple.bind hx hf

/-- A branch keeps what both of its programs keep. -/
theorem Keeps.ite {I : σ → Prop} {c : Prop} [Decidable c] {y : EStateM ε σ α} (hx : Keeps I x) (hy : Keeps I y) :
    Keeps I (if c then x else y) := Triple.ite (fun _ => hx) (fun _ => hy)

/-- The invariant holds of the state the program ends in. -/
theorem Keeps.state {I : σ → Prop} (h : Keeps I x) {s : σ} (hs : I s) :
    (∀ a s', x.run s = .ok a s' → I s') ∧ (∀ e s', x.run s = .error e s' → I s') :=
  h s hs

/-- The same of the state after the program, however it ends. -/
theorem Keeps.stateAfter {I : σ → Prop} (h : Keeps I x) {s : σ} (hs : I s) : I (stateAfter (x.run s)) := by
  cases hx : x.run s with
  | ok a s' => exact (h.state hs).1 a s' hx
  | error e s' => exact (h.state hs).2 e s' hx

end Triple

end Lib
