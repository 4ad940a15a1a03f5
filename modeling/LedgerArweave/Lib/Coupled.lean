import LedgerArweave.Lib.Program

/-!
# Two runs side by side

`Coupled R x y Q` compares a run of one program with a run of another: started in states that `R` relates, they stop with the
same error, or they return the same value in states that `Q` relates. Of one program run twice, it says what the run does not
depend on.
-/

namespace Lib

section Coupled

variable {ε σ α β : Type}

/-- What a caller learns from a run: the value it returns or the error it stops with. -/
def codeOf (r : EStateM.Result ε σ α) : Except ε α :=
  match r with
  | .ok a _ => .ok a
  | .error e _ => .error e

/-- Started in states of `R`, both programs stop with the same error, or both return the same value in states of `Q`. -/
def Coupled (R : σ → σ → Prop) (x y : EStateM ε σ α) (Q : α → σ → σ → Prop) : Prop :=
  ∀ s t, R s t → (∃ a s' t', x.run s = .ok a s' ∧ y.run t = .ok a t' ∧ Q a s' t') ∨
    ∃ e s' t', x.run s = .error e s' ∧ y.run t = .error e t'

variable {R R' : σ → σ → Prop} {x y : EStateM ε σ α} {Q Q' : α → σ → σ → Prop}

/-- Coupled runs have the same code. -/
theorem Coupled.codeOf_eq (h : Coupled R x y Q) {s t : σ} (hst : R s t) : codeOf (x.run s) = codeOf (y.run t) := by
  rcases h s t hst with ⟨a, s', t', hx, hy, -⟩ | ⟨e, s', t', hx, hy⟩
  · rw [hx, hy]
    rfl
  · rw [hx, hy]
    rfl

/-- Where both runs return, they end in related states. -/
theorem Coupled.ok (h : Coupled R x y Q) {s t s' t' : σ} {a b : α} (hst : R s t) (hx : x.run s = .ok a s')
    (hy : y.run t = .ok b t') : a = b ∧ Q a s' t' := by
  rcases h s t hst with ⟨c, s₁, t₁, hx', hy', hq⟩ | ⟨e, s₁, t₁, hx', -⟩
  · rw [hx] at hx'
    rw [hy] at hy'
    cases hx'
    cases hy'
    exact ⟨rfl, hq⟩
  · rw [hx] at hx'
    cases hx'

/-- The rule of consequence. -/
theorem Coupled.conseq (h : Coupled R x y Q) (hR : ∀ s t, R' s t → R s t) (hQ : ∀ a s t, Q a s t → Q' a s t) :
    Coupled R' x y Q' := by
  intro s t hst
  rcases h s t (hR s t hst) with ⟨a, s', t', hx, hy, hq⟩ | herr
  · exact Or.inl ⟨a, s', t', hx, hy, hQ a s' t' hq⟩
  · exact Or.inr herr

theorem Coupled.pure {a : α} (h : ∀ s t, R s t → Q a s t) :
    Coupled R (pure a : EStateM ε σ α) (pure a : EStateM ε σ α) Q :=
  fun s t hst => Or.inl ⟨a, s, t, rfl, rfl, h s t hst⟩

theorem Coupled.throw {e : ε} : Coupled R (throw e : EStateM ε σ α) (throw e : EStateM ε σ α) Q :=
  fun s t _ => Or.inr ⟨e, s, t, rfl, rfl⟩

/-- The rule of sequence. -/
theorem Coupled.bind {f g : α → EStateM ε σ β} {S : β → σ → σ → Prop} (hxy : Coupled R x y Q)
    (hfg : ∀ a, Coupled (Q a) (f a) (g a) S) : Coupled R (x >>= f) (y >>= g) S := by
  intro s t hst
  rcases hxy s t hst with ⟨a, s₁, t₁, hx, hy, hq⟩ | ⟨e, s₁, t₁, hx, hy⟩
  · rw [run_bind_of_ok hx, run_bind_of_ok hy]
    exact hfg a s₁ t₁ hq
  · exact Or.inr ⟨e, s₁, t₁, run_bind_of_error hx f, run_bind_of_error hy g⟩

/-- The programs may look at the states, each at its own, before they go on. -/
theorem Coupled.get_bind {f g : σ → EStateM ε σ β} {S : β → σ → σ → Prop}
    (h : ∀ s t, R s t → Coupled (fun s' t' => s' = s ∧ t' = t) (f s) (g t) S) :
    Coupled R (get >>= f) (get >>= g) S := by
  intro s t hst
  rw [run_bind_of_ok (run_get s), run_bind_of_ok (run_get t)]
  exact h s t hst s t ⟨rfl, rfl⟩

/-- Both programs branch the same way. -/
theorem Coupled.ite {c d : Prop} [Decidable c] [Decidable d] {x' y' : EStateM ε σ α} (hcd : c ↔ d)
    (hx : c → Coupled R x y Q) (hy : ¬c → Coupled R x' y' Q) :
    Coupled R (if c then x else x') (if d then y else y') Q := by
  by_cases hc : c
  · rw [if_pos hc, if_pos (hcd.1 hc)]
    exact hx hc
  · rw [if_neg hc, if_neg fun hd => hc (hcd.2 hd)]
    exact hy hc

end Coupled

end Lib
