import LedgerArweave.Lib.Program
import LedgerArweave.Lib.Runs

/-!
# Two levels side by side

`Simulates R x y Q` compares a program with one over another kind of state: started in states that `R` relates, both return in
states that `Q` relates, or both stop with the same error. Of two machines that take the same inputs, `Mirrors` says that a step
of theirs from related states, on an input that the condition `ok` of the first machine allows, answers the same and leads to
related states; then they answer the same in every run whose inputs are allowed, and so do two that mirror a third.
-/

namespace Lib

section Programs

variable {ε σ τ α β : Type}

/-- Started in related states, both programs return values and states of `Q`, or both stop with the same error. -/
def Simulates (R : σ → τ → Prop) (x : EStateM ε σ α) (y : EStateM ε τ β) (Q : α → β → σ → τ → Prop) : Prop :=
  ∀ s t, R s t → (∃ a b s' t', x.run s = .ok a s' ∧ y.run t = .ok b t' ∧ Q a b s' t') ∨
    ∃ e s' t', x.run s = .error e s' ∧ y.run t = .error e t'

variable {R R' : σ → τ → Prop} {x : EStateM ε σ α} {y : EStateM ε τ β} {Q Q' : α → β → σ → τ → Prop}

/-- The rule of consequence. -/
theorem Simulates.conseq (h : Simulates R x y Q) (hR : ∀ s t, R' s t → R s t) (hQ : ∀ a b s t, Q a b s t → Q' a b s t) :
    Simulates R' x y Q' := by
  intro s t hst
  rcases h s t (hR s t hst) with ⟨a, b, s', t', hx, hy, hq⟩ | herr
  · exact Or.inl ⟨a, b, s', t', hx, hy, hQ a b s' t' hq⟩
  · exact Or.inr herr

theorem Simulates.pure {a : α} {b : β} (h : ∀ s t, R s t → Q a b s t) :
    Simulates R (pure a : EStateM ε σ α) (pure b : EStateM ε τ β) Q :=
  fun s t hst => Or.inl ⟨a, b, s, t, rfl, rfl, h s t hst⟩

/-- The rule of sequence. -/
theorem Simulates.bind {α' β' : Type} {f : α → EStateM ε σ α'} {g : β → EStateM ε τ β'} {S : α' → β' → σ → τ → Prop}
    (hxy : Simulates R x y Q) (hfg : ∀ a b, Simulates (Q a b) (f a) (g b) S) : Simulates R (x >>= f) (y >>= g) S := by
  intro s t hst
  rcases hxy s t hst with ⟨a, b, s₁, t₁, hx, hy, hq⟩ | ⟨e, s₁, t₁, hx, hy⟩
  · rw [run_bind_of_ok hx, run_bind_of_ok hy]
    exact hfg a b s₁ t₁ hq
  · exact Or.inr ⟨e, s₁, t₁, run_bind_of_error hx f, run_bind_of_error hy g⟩

/-- The first program may look at its state before it goes on. -/
theorem Simulates.get_bind {f : σ → EStateM ε σ α}
    (h : ∀ s t, R s t → Simulates (fun s' t' => s' = s ∧ t' = t) (f s) y Q) : Simulates R (get >>= f) y Q := by
  intro s t hst
  rw [run_bind_of_ok (run_get s)]
  exact h s t hst s t ⟨rfl, rfl⟩

/-- The second program may make another value of its own. -/
theorem Simulates.map_right {γ : Type} {f : β → γ} {S : α → γ → σ → τ → Prop} (h : Simulates R x y Q)
    (hS : ∀ a b s t, Q a b s t → S a (f b) s t) : Simulates R x (y >>= fun b => Pure.pure (f b)) S := by
  intro s t hst
  rcases h s t hst with ⟨a, b, s', t', hx, hy, hq⟩ | ⟨e, s', t', hx, hy⟩
  · exact Or.inl ⟨a, f b, s', t', hx, run_bind_of_ok hy _, hS a b s' t' hq⟩
  · exact Or.inr ⟨e, s', t', hx, run_bind_of_error hy _⟩

end Programs

section Machines

variable {σ σ' τ ι ο : Type}

/-- Steps from related states, on allowed inputs, answer the same and lead to related states. -/
def Mirrors (R : σ → τ → Prop) (ok : σ → ι → Prop) (step : σ → ι → σ × ο) (step' : τ → ι → τ × ο) : Prop :=
  ∀ s t i, R s t → ok s i → (step s i).2 = (step' t i).2 ∧ R (step s i).1 (step' t i).1

variable {R : σ → τ → Prop} {R' : σ' → τ → Prop} {ok : σ → ι → Prop} {ok' : σ' → ι → Prop}

/-- Machines that mirror each other answer the same over every run of allowed inputs. -/
theorem Mirrors.trace {step : σ → ι → σ × ο} {step' : τ → ι → τ × ο} (h : Mirrors R ok step step') (is : List ι) {s : σ} {t : τ}
    (hst : R s t) (hok : ∀ e ∈ trace step s is, ok e.before e.input) :
    (trace step s is).map (·.output) = (trace step' t is).map (·.output) ∧ R (final step s is) (final step' t is) := by
  induction is generalizing s t with
  | nil => exact ⟨rfl, hst⟩
  | cons i is ih =>
    obtain ⟨hout, hnext⟩ := h s t i hst (hok _ List.mem_cons_self)
    obtain ⟨houts, hfinal⟩ := ih hnext fun e he => hok e (List.mem_cons_of_mem _ he)
    exact ⟨congrArg₂ List.cons hout houts, hfinal⟩

/-- Machines that mirror a third one mirror each other, when what the first one allows the second one allows in the same state of
the third. -/
theorem Mirrors.join {step : σ → ι → σ × ο} {step' : σ' → ι → σ' × ο} {step₀ : τ → ι → τ × ο} (h : Mirrors R ok step step₀)
    (h' : Mirrors R' ok' step' step₀) (hok : ∀ s s' t i, R s t → R' s' t → ok s i → ok' s' i) :
    Mirrors (fun s s' => ∃ t, R s t ∧ R' s' t) ok step step' := by
  rintro s s' i ⟨t, hs, hs'⟩ hi
  obtain ⟨hout, hnext⟩ := h s t i hs hi
  obtain ⟨hout', hnext'⟩ := h' s' t i hs' (hok s s' t i hs hs' hi)
  exact ⟨hout.trans hout'.symm, _, hnext, hnext'⟩

end Machines

end Lib
