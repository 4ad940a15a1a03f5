import LedgerArweave.Link

/-!
# A user who decides

`Delivers` is about a user who approves what a review asks. Here the user approves or rejects, each time anew: what is decided
may depend on all that happened before and on the request that opens the review, and the transport hands over the answer that
comes of it.
-/

namespace LedgerArweave

open Lib

section

variable (P : Platform) {τ : Type}

/-- What the user makes of a review: approves it, with what the padding of a signature draws then, or rejects it. -/
abbrev Decision : Type := Option Nat

/-- The button that the user presses. -/
def Decision.event : Decision → Event
  | some salt => .approve salt
  | none => .reject

/-- An APDU and its answer, on a device whose user decides what a review asks. -/
def exchangeBy (user : Decision) (d : Device) (a : Apdu) : Device × Output :=
  match d.step P (.apdu a) with
  | (d, some answer) => (d, some answer)
  | (d, none) => d.step P user.event

/-- The transport delivers every APDU to the device, and every answer to the client; `user` is what the user decides when a
request opens a review. -/
def DeliversBy (T : Transport τ) (device : τ → Device) (user : τ → Request → Decision) : Prop :=
  ∀ t request (h : request.data.length ≤ 255),
    device (T t request).1 = (exchangeBy P (user t request) (device t) (request.apdu h)).1 ∧
    ∀ body sw, (exchangeBy P (user t request) (device t) (request.apdu h)).2 = some (body ++ swBytes sw) →
      (T t request).2 = outcomeOf request (answer body sw)

/-- A cable to a device whose user decides. -/
def cableBy (user : Device → Request → Decision) : Transport Device := fun d request =>
  if h : request.data.length ≤ 255 then
    let (d, o) := exchangeBy P (user d request) d (request.apdu h)
    match o with
    | some bytes =>
      if h : 2 ≤ bytes.length then (d, outcomeOf request ⟨bytes, h⟩) else (d, .rejected (.printable "no status word"))
    | none => (d, .rejected (.printable "no answer"))
  else (d, .rejected (.printable "the data does not fit an APDU"))

/-- A cable delivers. -/
theorem delivers_cableBy (user : Device → Request → Decision) : DeliversBy P (cableBy P user) id user := by
  intro d request h
  simp only [cableBy, dif_pos h, id]
  generalize exchangeBy P (user d request) d (request.apdu h) = r
  obtain ⟨d', o⟩ := r
  constructor
  · cases o with
    | none => rfl
    | some bytes =>
      simp only
      split <;> rfl
  · intro body sw ho
    obtain rfl : o = some (body ++ swBytes sw) := ho
    exact congrArg Prod.snd (dif_pos (answer body sw).2)

variable {P}

/-- An APDU that is answered at once is answered without the user. -/
theorem exchangeBy_of_answered {d d' : Device} {a : Apdu} {bytes : List UInt8} (user : Decision)
    (h : d.step P (.apdu a) = (d', some bytes)) : exchangeBy P user d a = (d', some bytes) := by
  rw [exchangeBy, h]

end

end LedgerArweave
