import LedgerArweave.Js.Client
import LedgerArweave.Demo
import Mathlib.Data.Nat.Find

/-!
# The client and failing chunks

`signGetDigest` breaks its loop at the first chunk that was not answered 0x9000, but the answer to the first chunk of all, the
`INIT`, only starts the loop: its result is not looked at. So the client stops at a failing chunk exactly when that chunk is
another one, and the result it gets for it is one the loop can tell from success.
-/

namespace LedgerArweave

open Lib

/-- The transport that settles the requests with a given sequence of outcomes. -/
def scripted (outcomes : Nat → Outcome) : Transport Nat := fun k _ => (k + 1, outcomes k)

/-- A request was answered 0x9000. -/
def Outcome.Ok : Outcome → Prop
  | .resolved response => returnCodeOf response = Common.noError
  | .rejected _ => False

instance (o : Outcome) : Decidable o.Ok := by
  cases o
  · exact inferInstanceAs (Decidable (_ = _))
  · exact inferInstanceAs (Decidable False)

/-- The code of an outcome: that of the answer, or the one the rejection stands for. -/
def Outcome.code : Outcome → ReturnCode
  | .resolved response => .number (returnCodeOf response)
  | .rejected (.statusCode code) => code
  | .rejected (.coded returnCode _ _) => returnCode
  | .rejected (.printable _) => .number 0xffff
  | .rejected (.unprintable _) => .number 0xffff

/-- A rejection with a value that has no text. -/
def Outcome.Unprintable : Outcome → Prop
  | .rejected (.unprintable _) => True
  | _ => False

/-- A run of `signGetDigest` over a sequence of outcomes. -/
def runDigest (outcomes : Nat → Outcome) (message : TxFields) : EStateM.Result Rejection (Wire Nat) DigestResult :=
  (signGetDigest (scripted outcomes) message).run ⟨0, []⟩

/-- The client stops at the first chunk that fails: it sends the chunks in order, each only if all before it were answered
0x9000; it resolves to 0x9000 only if all were; and it resolves to the code of the first chunk that was not. -/
structure StopsAtFirstFailure (outcomes : Nat → Outcome) (message : TxFields) : Prop where
  sent : ∃ m ≤ (prepareChunks message).length, (stateAfter (runDigest outcomes message)).sent = (chunkRequests message).take m ∧
    ∀ k, k + 1 < m → ∀ j ≤ k, (outcomes j).Ok
  success : ∀ r w, runDigest outcomes message = .ok r w → r.returnCode = ReturnCode.noError →
    ∀ j < (prepareChunks message).length, (outcomes j).Ok
  failure : ∀ k < (prepareChunks message).length, (∀ j < k, (outcomes j).Ok) → ¬(outcomes k).Ok →
    ∃ r w, runDigest outcomes message = .ok r w ∧ r.returnCode = (outcomes k).code

namespace HostAux

/-! ## One chunk -/

/-- What `signSendChunk` makes of an outcome. -/
def settle : Outcome → Except Rejection ChunkResult
  | .resolved response => .ok (chunkAnswered response)
  | .rejected (.statusCode code) => .ok ⟨none, code, errorCodeToString code⟩
  | .rejected (.coded returnCode errorMessage output) => .ok ⟨output, returnCode, errorMessage⟩
  | .rejected (.printable text) => .ok ⟨none, .number 0xffff, text⟩
  | .rejected (.unprintable error) => .error (.printable error)

/-- A result with the state it comes with. -/
def resultOf {α : Type} (r : Except Rejection α) (w : Wire Nat) : EStateM.Result Rejection (Wire Nat) α :=
  match r with
  | .ok a => .ok a w
  | .error e => .error e w

/-- A promise that resolves has the code of its outcome. -/
theorem settle_ok {o : Outcome} {r : ChunkResult} (h : settle o = .ok r) : r.returnCode = o.code ∧ ¬o.Unprintable := by
  cases o with
  | resolved response =>
    cases h
    exact ⟨rfl, not_false⟩
  | rejected reason =>
    cases reason with
    | unprintable error => cases h
    | _ =>
      cases h
      exact ⟨rfl, not_false⟩

/-- A promise is rejected when the message of the error cannot be printed, and with a text then. -/
theorem settle_error {o : Outcome} {e : Rejection} (h : settle o = .error e) :
    o.Unprintable ∧ ∃ text, e = .printable text := by
  cases o with
  | resolved response => cases h
  | rejected reason =>
    cases reason with
    | unprintable error =>
      cases h
      exact ⟨trivial, error, rfl⟩
    | _ => cases h

/-- The loop goes on after this outcome. -/
def Goes (o : Outcome) : Prop := ¬o.Unprintable ∧ o.code = ReturnCode.noError

/-- After an accepted chunk the upload goes on. -/
theorem goes_of_ok {o : Outcome} (h : o.Ok) : Goes o := by
  cases o with
  | resolved response => exact ⟨not_false, congrArg ReturnCode.number h⟩
  | rejected reason => exact absurd h not_false

variable (outcomes : Nat → Outcome)

/-- A chunk is sent once, and its promise settles by the next outcome. -/
theorem run_signSendChunk (chunkIdx chunkNum : Nat) (chunk : List UInt8) (w : Wire Nat) :
    (signSendChunk (scripted outcomes) chunkIdx chunkNum chunk).run w =
      resultOf (settle (outcomes w.transport)) ⟨w.transport + 1, w.sent ++ [chunkRequest chunkIdx chunkNum chunk]⟩ := by
  have hsend := run_send (scripted outcomes) (chunkRequest chunkIdx chunkNum chunk) w
  simp only [scripted] at hsend
  unfold signSendChunk
  cases ho : outcomes w.transport with
  | resolved response =>
    rw [ho] at hsend
    exact run_thenElse_of_ok hsend _ _
  | rejected reason =>
    rw [ho] at hsend
    refine (run_thenElse_of_error hsend _ _).trans ?_
    cases reason <;> rfl

/-! ## The loop -/

/-- The loop sends chunks up to and with the first one after which it does not go on, or up to the last one. -/
theorem run_sendChunks (chunkNum : Nat) (chunks : List (List UInt8)) (hne : chunks ≠ []) :
    ∀ (i : Nat) (result : ChunkResult) (sent : List Request), ∃ m < chunks.length,
      (sendChunks (scripted outcomes) chunkNum i chunks result).run ⟨i, sent⟩ =
        resultOf (settle (outcomes (i + m))) ⟨i + m + 1, sent ++ (requestsFrom chunkNum i chunks).take (m + 1)⟩ ∧
      (∀ j < m, Goes (outcomes (i + j))) ∧ (m + 1 = chunks.length ∨ ¬Goes (outcomes (i + m))) := by
  induction chunks with
  | nil => exact absurd rfl hne
  | cons chunk chunks ih =>
    intro i result sent
    have hchunk := run_signSendChunk outcomes (1 + i) chunkNum chunk ⟨i, sent⟩
    -- when the loop ends here, this chunk is the only one sent
    have here : ∀ r : EStateM.Result Rejection (Wire Nat) ChunkResult,
        r = resultOf (settle (outcomes i)) ⟨i + 1, sent ++ [chunkRequest (1 + i) chunkNum chunk]⟩ →
        (chunks = [] ∨ ¬Goes (outcomes i)) → ∃ m < (chunk :: chunks).length,
          r = resultOf (settle (outcomes (i + m)))
            ⟨i + m + 1, sent ++ (requestsFrom chunkNum i (chunk :: chunks)).take (m + 1)⟩ ∧
          (∀ j < m, Goes (outcomes (i + j))) ∧ (m + 1 = (chunk :: chunks).length ∨ ¬Goes (outcomes (i + m))) := by
      intro r hr hlast
      refine ⟨0, Nat.succ_pos _, hr, nofun, hlast.imp ?_ id⟩
      intro hnil
      rw [hnil]
      rfl
    unfold sendChunks
    cases hs : settle (outcomes i) with
    | error e =>
      rw [hs] at hchunk
      refine here _ ?_ (Or.inr fun hgo => hgo.1 (settle_error hs).1)
      rw [run_bind_of_error hchunk, hs]
      rfl
    | ok r =>
      rw [hs] at hchunk
      obtain ⟨hcode, hprint⟩ := settle_ok hs
      rw [run_bind_of_ok hchunk]
      by_cases hno : r.returnCode ≠ ReturnCode.noError
      · refine here _ ?_ (Or.inr fun hgo => hno (hcode.trans hgo.2))
        rw [if_pos hno, hs]
        rfl
      · rw [if_neg hno]
        have hgo : Goes (outcomes i) := ⟨hprint, hcode.symm.trans (not_not.1 hno)⟩
        by_cases hnil : chunks = []
        · refine here _ ?_ (Or.inl hnil)
          rw [hnil, hs]
          rfl
        · obtain ⟨m, hm, hrun, hbefore, hlast⟩ := ih hnil (i + 1) r (sent ++ [chunkRequest (1 + i) chunkNum chunk])
          have hadd : i + 1 + m = i + (m + 1) := by omega
          rw [hadd] at hrun hlast
          refine ⟨m + 1, Nat.succ_lt_succ hm, ?_, ?_, hlast.imp (congrArg Nat.succ) id⟩
          · rw [hrun, requestsFrom, List.take_succ_cons, List.append_assoc]
            rfl
          · intro j hj
            cases j with
            | zero => exact hgo
            | succ j =>
              have := hbefore j (by omega)
              rwa [Nat.add_assoc, Nat.add_comm 1 j] at this

/-! ## All chunks -/

/-- `signGetDigest` over a sequence of outcomes: it stops at the first one when that is a rejection without a text; otherwise
the loop decides, whatever the first outcome was. -/
theorem run_signGetDigest (message : TxFields) :
    ((outcomes 0).Unprintable ∧ ∃ text, runDigest outcomes message =
      .ok ⟨.number 0xffff, text, none⟩ ⟨1, (chunkRequests message).take 1⟩) ∨
    (¬(outcomes 0).Unprintable ∧ ∃ m, 0 < m ∧ m < (prepareChunks message).length ∧
      runDigest outcomes message = resultOf ((settle (outcomes m)).map fun r => ⟨r.returnCode, r.errorMessage, r.output⟩)
        ⟨m + 1, (chunkRequests message).take (m + 1)⟩ ∧
      (∀ j, 0 < j → j < m → Goes (outcomes j)) ∧ (m + 1 = (prepareChunks message).length ∨ ¬Goes (outcomes m))) := by
  have hfirst := run_signSendChunk outcomes 1 (prepareChunks message).length (List.replicate 20 0) ⟨0, []⟩
  have hne : sliceChunks (encodeTx message) ≠ [] := sliceChunks_ne_nil (encodeTx_ne_nil message)
  unfold runDigest
  rw [signGetDigest]
  cases hs : settle (outcomes 0) with
  | error e =>
    obtain ⟨hprint, text, rfl⟩ := settle_error hs
    rw [hs] at hfirst
    exact Or.inl ⟨hprint, text, run_thenElse_of_error hfirst _ _⟩
  | ok r =>
    rw [hs] at hfirst
    obtain ⟨m, hm, hrun, hbefore, hlast⟩ := run_sendChunks outcomes (prepareChunks message).length
      (sliceChunks (encodeTx message)) hne 1 ⟨none, r.returnCode, r.errorMessage⟩
      [chunkRequest 1 (prepareChunks message).length (List.replicate 20 0)]
    have hadd : 1 + m = m + 1 := Nat.add_comm 1 m
    rw [hadd] at hrun hlast
    refine Or.inr ⟨(settle_ok hs).2, m + 1, Nat.succ_pos m, Nat.succ_lt_succ hm, ?_, ?_,
      hlast.imp (congrArg Nat.succ) id⟩
    · refine (run_thenElse_of_ok (by exact hfirst) _ _).trans ?_
      cases hlastSettle : settle (outcomes (m + 1)) with
      | ok result =>
        rw [hlastSettle] at hrun
        exact run_bind_of_ok (by exact hrun) _
      | error e =>
        rw [hlastSettle] at hrun
        exact run_bind_of_error (by exact hrun) _
    · intro j hj hjm
      have := hbefore (j - 1) (by omega)
      rwa [show 1 + (j - 1) = j by omega] at this

/-! ## The sequence of outcomes -/

/-- How a promise settles does not change what was sent. -/
theorem sent_resultOf {α : Type} (r : Except Rejection α) (w : Wire Nat) : (stateAfter (resultOf r w)).sent = w.sent := by
  cases r <;> rfl

/-- One request for each chunk. -/
theorem length_requestsFrom (chunkNum i : Nat) (chunks : List (List UInt8)) :
    (requestsFrom chunkNum i chunks).length = chunks.length := by
  induction chunks generalizing i with
  | nil => rfl
  | cons chunk chunks ih => rw [requestsFrom, List.length_cons, List.length_cons, ih]

/-- The same for a whole message. -/
theorem length_chunkRequests (message : TxFields) : (chunkRequests message).length = (prepareChunks message).length :=
  length_requestsFrom _ _ _

variable {outcomes}

/-- Where not all chunks are answered 0x9000, one is the first that is not. -/
theorem exists_first {n : Nat} (h : ¬∀ j < n, (outcomes j).Ok) :
    ∃ k, (k < n ∧ ¬(outcomes k).Ok) ∧ ∀ j < k, (outcomes j).Ok := by
  have hex : ∃ k, k < n ∧ ¬(outcomes k).Ok := by
    by_contra hno
    exact h fun j hj => by_contra fun hj' => hno ⟨j, hj, hj'⟩
  refine ⟨Nat.find hex, Nat.find_spec hex, ?_⟩
  intro j hj
  have hmin := Nat.find_min hex hj
  exact by_contra fun hj' => hmin ⟨Nat.lt_trans hj (Nat.find_spec hex).1, hj'⟩

/-- An accepted chunk has no error to print. -/
theorem not_unprintable_of_ok {o : Outcome} (h : o.Ok) : ¬o.Unprintable := (goes_of_ok h).1

/-- The loop stops at the first chunk that is not answered 0x9000, or it goes on there. -/
theorem stop_le {k m n : Nat} (hk : k < n) (hfirst : ∀ j < k, (outcomes j).Ok)
    (hlast : m + 1 = n ∨ ¬Goes (outcomes m)) : k ≤ m := by
  by_contra hlt
  rcases hlast with hlast | hlast
  · omega
  · exact hlast (goes_of_ok (hfirst m (by omega)))

/-- The loop stops at the first chunk that is not answered 0x9000 when its result is no success. -/
theorem stop_eq {k m n : Nat} (hk : k < n) (hpos : 0 < k) (hfirst : ∀ j < k, (outcomes j).Ok) (hstop : ¬Goes (outcomes k))
    (hbefore : ∀ j, 0 < j → j < m → Goes (outcomes j)) (hlast : m + 1 = n ∨ ¬Goes (outcomes m)) : m = k := by
  have hle := stop_le hk hfirst hlast
  rcases Nat.eq_or_lt_of_le hle with heq | hlt
  · exact heq.symm
  · exact absurd (hbefore k hpos hlt) hstop

/-- A promise whose error can be printed resolves, with the code of the outcome. -/
theorem settle_of_printable {o : Outcome} (h : ¬o.Unprintable) : ∃ r, settle o = .ok r ∧ r.returnCode = o.code := by
  cases hs : settle o with
  | ok r => exact ⟨r, rfl, (settle_ok hs).1⟩
  | error e => exact absurd (settle_error hs).1 h

/-- A rejection with a value that has no text has the code 0xFFFF. -/
theorem code_of_unprintable {o : Outcome} (h : o.Unprintable) : o.code = .number 0xffff := by
  cases o with
  | resolved response => exact absurd h not_false
  | rejected reason =>
    cases reason with
    | unprintable error => rfl
    | _ => exact absurd h not_false

/-- There is one first failure. -/
theorem first_unique {k m : Nat} (hk : ∀ j < k, (outcomes j).Ok) (hkf : ¬(outcomes k).Ok) (hm : ∀ j < m, (outcomes j).Ok)
    (hmf : ¬(outcomes m).Ok) : k = m := by
  rcases Nat.lt_trichotomy k m with hlt | heq | hlt
  · exact absurd (hm k hlt) hkf
  · exact heq
  · exact absurd (hk m hlt) hmf

/-! ## When the client stops -/

variable {message : TxFields}

/-- More than one chunk is sent of every message. -/
theorem one_lt_length_prepareChunks (message : TxFields) : 1 < (prepareChunks message).length :=
  Nat.succ_lt_succ (List.length_pos_iff.2 (sliceChunks_ne_nil (encodeTx_ne_nil message)))

/-- When all chunks are accepted, nothing has to stop. -/
theorem stops_of_all_ok (hall : ∀ j < (prepareChunks message).length, (outcomes j).Ok) :
    StopsAtFirstFailure outcomes message := by
  have hlen := one_lt_length_prepareChunks message
  refine ⟨?_, fun _ _ _ _ => hall, fun k hk _ hfail => absurd (hall k hk) hfail⟩
  rcases run_signGetDigest outcomes message with ⟨hprint, -⟩ | ⟨-, m, -, hm, hres, -, -⟩
  · exact absurd hprint (not_unprintable_of_ok (hall 0 (by omega)))
  · exact ⟨m + 1, hm, by rw [hres, sent_resultOf], fun k hk j hj => hall j (by omega)⟩

/-- The handler of the first chunk is not called when the rejection of that chunk has no text. -/
theorem stops_of_init_unprintable (hfail : ¬(outcomes 0).Ok) (hprint : (outcomes 0).Unprintable) :
    StopsAtFirstFailure outcomes message := by
  have hlen := one_lt_length_prepareChunks message
  rcases run_signGetDigest outcomes message with ⟨-, text, hres⟩ | ⟨hno, -⟩
  · refine ⟨⟨1, by omega, by rw [hres]; rfl, fun k hk => by omega⟩, ?_, ?_⟩
    · intro r w hr hcode
      rw [hres] at hr
      cases hr
      cases hcode
    · intro k _ hfirst _
      rcases Nat.eq_zero_or_pos k with rfl | hpos
      · exact ⟨_, _, hres, (code_of_unprintable hprint).symm⟩
      · exact absurd (hfirst 0 hpos) hfail
  · exact absurd hprint hno

/-- The loop breaks at a failing chunk whose result is no success. -/
theorem stops_of_later {m : Nat} (hm : m < (prepareChunks message).length) (hfirst : ∀ j < m, (outcomes j).Ok)
    (hfail : ¬(outcomes m).Ok) (hpos : 0 < m) (hprint : ¬(outcomes m).Unprintable)
    (hcode : (outcomes m).code ≠ ReturnCode.noError) : StopsAtFirstFailure outcomes message := by
  rcases run_signGetDigest outcomes message with ⟨hprint0, -⟩ | ⟨-, k, -, -, hres, hbefore, hlast⟩
  · exact absurd hprint0 (not_unprintable_of_ok (hfirst 0 hpos))
  obtain rfl := stop_eq hm hpos hfirst (fun hgo => hcode hgo.2) hbefore hlast
  obtain ⟨result, hs, hresult⟩ := settle_of_printable hprint
  rw [hs] at hres
  refine ⟨⟨k + 1, hm, by rw [hres, sent_resultOf], fun i hi j hj => hfirst j (by omega)⟩, ?_,
    ?_⟩
  · intro r w hr hno
    rw [hres] at hr
    cases hr
    exact absurd (hresult.symm.trans hno) hcode
  · intro i _ hfirst' hfail'
    rw [first_unique hfirst' hfail' hfirst hfail]
    exact ⟨_, _, hres, hresult⟩

/-- A client that stops does not go past a failed `INIT`: the loop was not entered. -/
theorem unprintable_of_stops (h : StopsAtFirstFailure outcomes message) (hfail : ¬(outcomes 0).Ok) :
    (outcomes 0).Unprintable := by
  have hlen := one_lt_length_prepareChunks message
  rcases run_signGetDigest outcomes message with ⟨hprint, -⟩ | ⟨-, m, hm, hmn, hres, -⟩
  · exact hprint
  · obtain ⟨m', hm', hsent, hok⟩ := h.sent
    have hlength := congrArg List.length hsent
    rw [hres, sent_resultOf, List.length_take, List.length_take, length_chunkRequests] at hlength
    exact absurd (hok 0 (by omega) 0 (Nat.le_refl 0)) hfail

/-- A client that resolves to the code of a failing chunk other than the `INIT` was given a rejection with a text, if any. -/
theorem printable_of_resolved {k : Nat} (hk : k < (prepareChunks message).length) (hpos : 0 < k)
    (hfirst : ∀ j < k, (outcomes j).Ok) {r : DigestResult} {w : Wire Nat} (hr : runDigest outcomes message = .ok r w) :
    ¬(outcomes k).Unprintable := by
  intro hprint
  rcases run_signGetDigest outcomes message with ⟨hprint0, -⟩ | ⟨-, m, -, -, hres, hbefore, hlast⟩
  · exact not_unprintable_of_ok (hfirst 0 hpos) hprint0
  · obtain rfl := stop_eq hk hpos hfirst (fun hgo => hgo.1 hprint) hbefore hlast
    cases hs : settle (outcomes m) with
    | ok result => exact (settle_ok hs).2 hprint
    | error e =>
      rw [hr, hs] at hres
      cases hres

end HostAux

open HostAux

/-- For every transaction and every sequence of outcomes, the client stops at the first chunk that fails if and only if no chunk
fails, or the first one that fails is the `INIT` rejected with a value without a text, or it is another chunk, the rejection (if
it is one) has a text, and its code is not 0x9000. -/
theorem stopsAtFirstFailure_iff (outcomes : Nat → Outcome) (message : TxFields) :
    StopsAtFirstFailure outcomes message ↔
      (∀ j < (prepareChunks message).length, (outcomes j).Ok) ∨
      ∃ k < (prepareChunks message).length, (∀ j < k, (outcomes j).Ok) ∧ ¬(outcomes k).Ok ∧
        ((k = 0 ∧ (outcomes 0).Unprintable) ∨
          (0 < k ∧ ¬(outcomes k).Unprintable ∧ (outcomes k).code ≠ ReturnCode.noError)) := by
  constructor
  · intro h
    by_cases hall : ∀ j < (prepareChunks message).length, (outcomes j).Ok
    · exact Or.inl hall
    obtain ⟨k, ⟨hk, hfail⟩, hfirst⟩ := exists_first hall
    refine Or.inr ⟨k, hk, hfirst, hfail, ?_⟩
    obtain ⟨r, w, hr, hcode⟩ := h.failure k hk hfirst hfail
    rcases Nat.eq_zero_or_pos k with rfl | hpos
    · exact Or.inl ⟨rfl, unprintable_of_stops h hfail⟩
    · exact Or.inr ⟨hpos, printable_of_resolved hk hpos hfirst hr,
        fun hno => hfail (h.success r w hr (hcode.trans hno) k hk)⟩
  · rintro (hall | ⟨k, hk, hfirst, hfail, ⟨rfl, hprint⟩ | ⟨hpos, hprint, hcode⟩⟩)
    · exact stops_of_all_ok hall
    · exact stops_of_init_unprintable hfail hprint
    · exact stops_of_later hk hfirst hfail hpos hprint hcode

/-- The `INIT` chunk is refused and all others are answered 0x9000: the client sends them all and reports success. -/
theorem not_stopsAtFirstFailure :
    ¬StopsAtFirstFailure (fun k => if k = 0 then .rejected (.statusCode (.number 0x6982)) else .resolved ⟨[0x90, 0], by decide⟩)
      Demo.tx := by
  intro h
  have hsuccess : (returned (runDigest (fun k => if k = 0 then .rejected (.statusCode (.number 0x6982))
      else .resolved ⟨[0x90, 0], by decide⟩) Demo.tx)).map DigestResult.returnCode = some ReturnCode.noError := by
    decide +kernel
  obtain ⟨r, w, hrun, hcode⟩ := exists_ok_of_returned hsuccess
  exact h.success r w hrun hcode 0 (by decide +kernel)

end LedgerArweave
