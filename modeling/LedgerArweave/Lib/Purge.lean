import LedgerArweave.Lib.Runs

/-!
# Inputs that do not interfere

A machine has two kinds of inputs, quiet ones and others, and its states are compared by a relation that says what the others
depend on. When a quiet input leaves a state where the relation holds it, and another input shows the same from related states
and leaves them related (`Unwinding`), then the quiet inputs of a run can be left out: the other steps show what they showed
before (`Unwinding.purge`).
-/

namespace Lib

variable {σ ι ο υ : Type} {step : σ → ι → σ × ο} {R : σ → σ → Prop} {Quiet : ι → Prop} {seen : Entry σ ι ο → υ}

/-- The conditions on one step. -/
structure Unwinding (step : σ → ι → σ × ο) (R : σ → σ → Prop) (Quiet : ι → Prop) (seen : Entry σ ι ο → υ) : Prop where
  quiet : ∀ s s' i, Quiet i → R s s' → R (step s i).1 s'
  other : ∀ s s' i, ¬Quiet i → R s s' → R (step s i).1 (step s' i).1
  shown : ∀ s s' i, ¬Quiet i → R s s' → seen (Entry.ofStep step s i) = seen (Entry.ofStep step s' i)

section

variable (Quiet) [DecidablePred Quiet]

/-- The inputs that are not quiet. -/
def purged : List ι → List ι
  | [] => []
  | i :: is => if Quiet i then purged is else i :: purged is

/-- What the steps show whose inputs are not quiet. -/
def view (seen : Entry σ ι ο → υ) : List (Entry σ ι ο) → List υ
  | [] => []
  | e :: tr => if Quiet e.input then view seen tr else seen e :: view seen tr

end

/-- The quiet inputs of a run change nothing that the others show. -/
theorem Unwinding.purge [DecidablePred Quiet] (h : Unwinding step R Quiet seen) (is : List ι) {s s' : σ} (hs : R s s') :
    view Quiet seen (trace step s is) = view Quiet seen (trace step s' (purged Quiet is)) ∧
      R (final step s is) (final step s' (purged Quiet is)) := by
  induction is generalizing s s' with
  | nil => exact ⟨rfl, hs⟩
  | cons i is ih =>
    rw [purged, trace, view, show (Entry.ofStep step s i).input = i from rfl]
    by_cases hq : Quiet i
    · rw [if_pos hq, if_pos hq]
      exact ih (h.quiet s s' i hq hs)
    · obtain ⟨hview, hfinal⟩ := ih (h.other s s' i hq hs)
      rw [if_neg hq, if_neg hq, trace, view, show (Entry.ofStep step s' i).input = i from rfl, if_neg hq,
        h.shown s s' i hq hs, hview]
      exact ⟨rfl, hfinal⟩

end Lib
