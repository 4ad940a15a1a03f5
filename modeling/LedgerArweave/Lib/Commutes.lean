import LedgerArweave.Lib.Program
import LedgerArweave.Lib.Runs

/-!
# Programs that do not look at a part of their state

`Commutes g x` says that a program does the same whether its state is changed by `g` first or last: it returns the same value,
or stops with the same error, and the states it ends in differ by `g`. When `g` changes a part of the state only, the program
neither reads that part nor copies it. One rule for each way to build a program, and one for the runs of a machine.
-/

namespace Lib

section Commutes

variable {ε ε' σ τ α β : Type}

/-- A result with its state changed. -/
def mapState (g : σ → σ) : EStateM.Result ε σ α → EStateM.Result ε σ α
  | .ok a s => .ok a (g s)
  | .error e s => .error e (g s)

/-- The program does the same before and after the change. -/
def Commutes (g : σ → σ) (x : EStateM ε σ α) : Prop := ∀ s, x.run (g s) = mapState g (x.run s)

variable {g : σ → σ} {x : EStateM ε σ α}

/-- Returning commutes with every map of the states. -/
theorem Commutes.pure {a : α} : Commutes g (pure a : EStateM ε σ α) := fun _ => rfl

/-- So does stopping. -/
theorem Commutes.throw {e : ε} : Commutes g (throw e : EStateM ε σ α) := fun _ => rfl

/-- A write commutes when it does on states. -/
theorem Commutes.modify {f : σ → σ} (h : ∀ s, f (g s) = g (f s)) : Commutes g (modify f : EStateM ε σ PUnit) := fun s =>
  congrArg (EStateM.Result.ok PUnit.unit) (h s)

/-- Programs that commute do so one after the other. -/
theorem Commutes.bind {f : α → EStateM ε σ β} (hx : Commutes g x) (hf : ∀ a, Commutes g (f a)) : Commutes g (x >>= f) := by
  intro s
  rw [run_bind, run_bind, hx s]
  cases x.run s with
  | ok a s' => exact hf a s'
  | error e s' => rfl

/-- A program that reads its state, and makes nothing else of it after the change. -/
theorem Commutes.get_bind {f : σ → EStateM ε σ β} (h : ∀ s, f (g s) = f s) (hf : ∀ s, Commutes g (f s)) :
    Commutes g (get >>= f) := by
  intro s
  rw [run_bind_of_ok (run_get _), run_bind_of_ok (run_get _), h s]
  exact hf s s

/-- A branch that the map does not change. -/
theorem Commutes.ite {c : Prop} [Decidable c] {y : EStateM ε σ α} (hx : Commutes g x) (hy : Commutes g y) :
    Commutes g (if c then x else y) := by
  split
  · exact hx
  · exact hy

/-- A program on a part of the state that the change maps by `g'`. -/
theorem Commutes.zoom {part : σ → τ} {put : τ → σ → σ} {g' : τ → τ} {y : EStateM ε τ α} (hy : Commutes g' y)
    (hpart : ∀ s, part (g s) = g' (part s)) (hput : ∀ t s, put (g' t) (g s) = g (put t s)) : Commutes g (zoom part put y) := by
  intro s
  rw [run_zoom, run_zoom, hpart, hy (part s)]
  cases y.run (part s) with
  | ok a t => exact congrArg (EStateM.Result.ok a) (hput t s)
  | error e t => exact congrArg (EStateM.Result.error e) (hput t s)

/-- Looking at the error code of a program that commutes. -/
theorem Commutes.attempt (hx : Commutes g x) : Commutes g (attempt x : EStateM ε' σ (Except ε α)) := by
  intro s
  rw [run_attempt, run_attempt, hx s]
  cases x.run s with
  | ok a s' => rfl
  | error e s' => rfl

/-- A program commutes with a change that changes nothing. -/
theorem Commutes.id (x : EStateM ε σ α) : Commutes (fun s => s) x := by
  intro s
  cases h : x.run s with
  | ok a s' => rfl
  | error e s' => rfl

end Commutes

/-! ## Runs -/

section Trace

variable {σ ι ο : Type} {step : σ → ι → σ × ο} {g : σ → σ}

/-- A step with the states before and after it changed. -/
def Entry.mapStates (g : σ → σ) (e : Entry σ ι ο) : Entry σ ι ο := ⟨g e.before, e.input, e.output, g e.after⟩

/-- Where every step answers the same before and after the change, as long as an invariant holds, so does every run. -/
theorem trace_map {I : σ → Prop} (hI : ∀ s i, I s → I (step s i).1)
    (hstep : ∀ s i, I s → step (g s) i = (g (step s i).1, (step s i).2)) :
    ∀ (is : List ι) (s : σ), I s → trace step (g s) is = (trace step s is).map (Entry.mapStates g) := by
  intro is
  induction is with
  | nil =>
    intro s _
    rfl
  | cons i is ih =>
    intro s hs
    rw [trace, trace, List.map_cons, Entry.ofStep, hstep s i hs, ih _ (hI s i hs)]
    rfl

end Trace

end Lib
