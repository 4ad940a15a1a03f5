import LedgerArweave.Lib.Program

/-!
# Sessions of calls against an abstract machine

A service is a program for each call, all over one state. An abstract machine says what a call may answer and what it does to an
abstract state; it is a relation, since an answer may depend on what the abstract state does not show. When every call, from a
state related to an abstract one, returns and does what the abstract machine allows, then so does every session
(`Refines.session`).
-/

namespace Lib

variable {ε σ α ι ο : Type}

/-- The steps of an abstract machine over a list of calls and their answers. -/
inductive Steps (A : α → ι → ο → α → Prop) : α → List ι → List ο → α → Prop where
  | nil {a : α} : Steps A a [] [] a
  | cons {a b c : α} {i : ι} {o : ο} {is : List ι} {os : List ο} (h : A a i o b) (ht : Steps A b is os c) :
      Steps A a (i :: is) (o :: os) c

/-- A session: the calls of a list, one after the other. -/
def session (serve : ι → EStateM ε σ ο) : List ι → EStateM ε σ (List ο)
  | [] => pure []
  | i :: is => do
    let o ← serve i
    let os ← session serve is
    return o :: os

/-- Every call, from a state related to an abstract one, returns, with an answer and a state that the abstract machine allows. -/
def Refines (R : σ → α → Prop) (serve : ι → EStateM ε σ ο) (A : α → ι → ο → α → Prop) : Prop :=
  ∀ i s a, R s a → ∃ o s' b, (serve i).run s = .ok o s' ∧ A a i o b ∧ R s' b

/-- A service that refines an abstract machine does so over every session. -/
theorem Refines.session {R : σ → α → Prop} {serve : ι → EStateM ε σ ο} {A : α → ι → ο → α → Prop} (h : Refines R serve A)
    (is : List ι) {s : σ} {a : α} (hs : R s a) :
    ∃ os s' b, (session serve is).run s = .ok os s' ∧ Steps A a is os b ∧ R s' b := by
  induction is generalizing s a with
  | nil => exact ⟨[], s, a, rfl, .nil, hs⟩
  | cons i is ih =>
    obtain ⟨o, s₁, b, hrun, hstep, hs₁⟩ := h i s a hs
    obtain ⟨os, s₂, c, hruns, hsteps, hs₂⟩ := ih hs₁
    refine ⟨o :: os, s₂, c, ?_, .cons hstep hsteps, hs₂⟩
    rw [Lib.session, run_bind_of_ok hrun, run_bind_of_ok hruns]
    rfl

end Lib
