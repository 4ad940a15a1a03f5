import Mathlib.Data.List.Induction
import Mathlib.Tactic.Common

/-!
# Runs and histories of a state machine

A machine is a function `step : σ → ι → σ × ο`: from a state and an input, the next state and what the machine answered. A run
is the list of its steps so far (`Entry`), oldest first. `Since p q tr` is the past operator of temporal logic: a step of `p`
occurred and no step of `q` came after it. A flag that one kind of step sets and another clears is the since of the two
(`Run.flag_iff_since`), and an invariant that may mention the whole history is proved by `Run.history`, or by `Run.history_of`
over the runs whose steps all meet a condition.
-/

namespace Lib

variable {σ ι ο : Type}

/-- One step of a run: the state before it, the input, the answer and the state after it. -/
structure Entry (σ ι ο : Type) where
  before : σ
  input : ι
  output : ο
  after : σ

/-- The step a machine takes from a state on an input. -/
def Entry.ofStep (step : σ → ι → σ × ο) (s : σ) (i : ι) : Entry σ ι ο := ⟨s, i, (step s i).2, (step s i).1⟩

/-- The runs of a machine from a state: the steps taken so far, and the state they lead to. -/
inductive Run (step : σ → ι → σ × ο) (s₀ : σ) : List (Entry σ ι ο) → σ → Prop where
  | start : Run step s₀ [] s₀
  | next {tr : List (Entry σ ι ο)} {s : σ} (h : Run step s₀ tr s) (i : ι) :
      Run step s₀ (tr ++ [Entry.ofStep step s i]) (step s i).1

/-- The run of a machine over a list of inputs. -/
def trace (step : σ → ι → σ × ο) : σ → List ι → List (Entry σ ι ο)
  | _, [] => []
  | s, i :: is => Entry.ofStep step s i :: trace step (step s i).1 is

/-- The state a machine is in after a list of inputs. -/
def final (step : σ → ι → σ × ο) : σ → List ι → σ
  | s, [] => s
  | s, i :: is => final step (step s i).1 is

variable {step : σ → ι → σ × ο} {s₀ : σ}

/-- A run followed by the steps of a list of inputs is a run. -/
theorem Run.append_trace {tr : List (Entry σ ι ο)} {s : σ} (h : Run step s₀ tr s) (is : List ι) :
    Run step s₀ (tr ++ trace step s is) (final step s is) := by
  induction is generalizing tr s with
  | nil => simpa [trace, final] using h
  | cons i is ih =>
    have := ih (h.next i)
    rwa [List.append_assoc, List.singleton_append] at this

theorem run_trace (step : σ → ι → σ × ο) (s : σ) (is : List ι) : Run step s (trace step s is) (final step s is) :=
  Run.append_trace Run.start is

/-- The last step of a run over a list of inputs. -/
theorem trace_concat (step : σ → ι → σ × ο) (s : σ) (is : List ι) (i : ι) :
    trace step s (is ++ [i]) = trace step s is ++ [Entry.ofStep step (final step s is) i] := by
  induction is generalizing s with
  | nil => rfl
  | cons j is ih => rw [List.cons_append, trace, trace, ih, List.cons_append, final]

/-- An invariant that may mention the history: it holds at the start and every step of the machine keeps it. -/
theorem Run.history (I : List (Entry σ ι ο) → σ → Prop) (h₀ : I [] s₀)
    (hs : ∀ tr s i, Run step s₀ tr s → I tr s → I (tr ++ [Entry.ofStep step s i]) (step s i).1)
    {tr : List (Entry σ ι ο)} {s : σ} (h : Run step s₀ tr s) : I tr s := by
  induction h with
  | start => exact h₀
  | next h i ih => exact hs _ _ i h ih

/-- The same of the runs whose steps all meet a condition: the invariant is kept by the steps that do. -/
theorem Run.history_of (I : List (Entry σ ι ο) → σ → Prop) {c : Entry σ ι ο → Prop} (h₀ : I [] s₀)
    (hs : ∀ tr s i, Run step s₀ tr s → I tr s → c (Entry.ofStep step s i) → I (tr ++ [Entry.ofStep step s i]) (step s i).1)
    {tr : List (Entry σ ι ο)} {s : σ} (h : Run step s₀ tr s) (hc : ∀ e ∈ tr, c e) : I tr s := by
  induction h with
  | start => exact h₀
  | next h i ih =>
    have hbefore := ih fun e he => hc e (List.mem_append_left _ he)
    exact hs _ _ i h hbefore (hc _ (List.mem_append_right _ (List.mem_singleton_self _)))

/-- Every step of a run is a step of the machine from a state that the steps before it reach. -/
theorem Run.split {tr : List (Entry σ ι ο)} {s : σ} (h : Run step s₀ tr s) :
    ∀ {pre e post}, tr = pre ++ e :: post → Run step s₀ pre e.before ∧ e = Entry.ofStep step e.before e.input := by
  induction h with
  | start =>
    intro pre e post he
    simp at he
  | @next tr s h i ih =>
    intro pre e post he
    rcases List.eq_nil_or_concat post with hp | ⟨post', x, hp⟩
    · subst hp
      obtain ⟨h1, h2⟩ := List.append_inj' he rfl
      obtain rfl := List.singleton_inj.1 h2
      subst h1
      exact ⟨h, rfl⟩
    · subst hp
      rw [List.concat_eq_append, ← List.cons_append, ← List.append_assoc] at he
      exact ih (List.append_inj' he rfl).1

/-! ## The past -/

variable {α : Type}

/-- A step of `p` occurred, and no step of `q` came after it. -/
def Since (p q : α → Prop) (tr : List α) : Prop := ∃ pre x mid, tr = pre ++ x :: mid ∧ p x ∧ ∀ y ∈ mid, ¬q y

theorem not_since_nil (p q : α → Prop) : ¬Since p q [] := by
  rintro ⟨pre, x, mid, h, -⟩
  simp at h

/-- The past operator unrolls at the last step. -/
theorem since_concat {p q : α → Prop} {tr : List α} {e : α} :
    Since p q (tr ++ [e]) ↔ p e ∨ (¬q e ∧ Since p q tr) := by
  constructor
  · rintro ⟨pre, x, mid, h, hp, hq⟩
    rcases List.eq_nil_or_concat mid with hm | ⟨mid', y, hm⟩
    · subst hm
      obtain ⟨-, h2⟩ := List.append_inj' h rfl
      obtain rfl := List.singleton_inj.1 h2
      exact Or.inl hp
    · subst hm
      rw [List.concat_eq_append] at h hq
      rw [← List.cons_append, ← List.append_assoc] at h
      obtain ⟨h1, h2⟩ := List.append_inj' h rfl
      obtain rfl := List.singleton_inj.1 h2
      exact Or.inr ⟨hq _ (by simp), pre, x, mid', h1, hp, fun y hy => hq y (by simp [hy])⟩
  · rintro (hp | ⟨hq, pre, x, mid, rfl, hp, hm⟩)
    · exact ⟨tr, e, [], rfl, hp, by simp⟩
    · refine ⟨pre, x, mid ++ [e], by simp, hp, ?_⟩
      intro y hy
      rcases List.mem_append.1 hy with hy | hy
      · exact hm y hy
      · rw [List.mem_singleton.1 hy]
        exact hq

/-- The past operator holds on as long as no step of `q` comes. -/
theorem Since.append {p q : α → Prop} {tr l : List α} (h : Since p q tr) (hl : ∀ y ∈ l, ¬q y) : Since p q (tr ++ l) := by
  obtain ⟨pre, x, mid, rfl, hx, hm⟩ := h
  refine ⟨pre, x, mid ++ l, by simp, hx, ?_⟩
  intro y hy
  rcases List.mem_append.1 hy with hy | hy
  · exact hm y hy
  · exact hl y hy

/-- When all steps of `p` are steps of `r`, the last step of `r` since then is a step of `p` or no step of `q`. -/
theorem Since.last {p q r : α → Prop} (hpr : ∀ x, p x → r x) {tr : List α} (h : Since p q tr) :
    Since (fun x => r x ∧ (p x ∨ ¬q x)) r tr := by
  obtain ⟨pre, x, mid, rfl, hx, hm⟩ := h
  induction mid using List.reverseRecOn with
  | nil => exact since_concat.2 (Or.inl ⟨hpr x hx, Or.inl hx⟩)
  | append_singleton mid y ih =>
    rw [← List.cons_append, ← List.append_assoc]
    have ih := ih fun z hz => hm z (List.mem_append_left _ hz)
    by_cases hr : r y
    · exact since_concat.2 (Or.inl ⟨hr, Or.inr (hm y (by simp))⟩)
    · exact since_concat.2 (Or.inr ⟨hr, ih⟩)

/-- A flag that is down at the start, that a step of `p` raises and a step of `q` lowers, is up exactly when a step of `p`
occurred and no step of `q` came after it. -/
theorem Run.flag_iff_since (flag : σ → Prop) {p q : Entry σ ι ο → Prop} (h₀ : ¬flag s₀)
    (hs : ∀ tr s i, Run step s₀ tr s →
      (flag (step s i).1 ↔ p (Entry.ofStep step s i) ∨ (¬q (Entry.ofStep step s i) ∧ flag s)))
    {tr : List (Entry σ ι ο)} {s : σ} (h : Run step s₀ tr s) : flag s ↔ Since p q tr := by
  induction h with
  | start => exact iff_of_false h₀ (not_since_nil p q)
  | next h i ih => rw [hs _ _ i h, ih, since_concat]

end Lib
