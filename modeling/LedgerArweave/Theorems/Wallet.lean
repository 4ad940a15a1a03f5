import LedgerArweave.Wallet
import LedgerArweave.Theorems.Signing
import LedgerArweave.Exchanges
import LedgerArweave.Lib.BigEndian

/-!
# The client and the app are a wallet

Over a transport that delivers, while the user approves, every session of the client with the app is one of a wallet. The wallet
has the key of the slot in use, is closed exactly while the device is not initialised or locked, and keeps the signature that
waits in flash. What one exchange does comes first, then what one call does, and a session by `Refines.session`.
-/

namespace LedgerArweave

open Lib

section

variable (P : Platform)

/-- The version the firmware answers; the target is printed as a signed number of 32 bits. -/
def firmwareVersion : Version where
  testMode := P.version.1.getD 0 0 ≠ 0
  major := some (P.version.1.getD 1 0)
  minor := some (P.version.1.getD 2 0)
  patch := some (P.version.1.getD 3 0)
  deviceLocked := P.version.1.getD 4 0 = 1
  targetId := hexString (Int.bmod (ofBe (slice P.version.1 5 4)) 4294967296)

/-- The wallet a device is. -/
def walletOf (H : List UInt8 → ByteArr 48) (bufferTob64Url : List UInt8 → String) (d : Device) : Wallet where
  closed := closedCode P d
  versionBytes := P.version.1
  version := firmwareVersion P
  address := toAscii (addressOf P d.store.slot.rsaPub)
  modulus := d.store.slot.rsaPub.n
  owner := bufferTob64Url d.store.slot.rsaPub.n.1
  Accepts tx := tx.Acceptable ∧ (encodeTx tx).length ≤ d.upload.buffering.data.length ∧ tx.ShownNormally P d.store ∧
    (d.expert = true → tx.ShownInExpert)
  deepHash tx := (Lib.deepHash H tx.tree).1
  Signature digest sig := ∃ salt, P.rsaSign d.store.slot.rsaPriv salt (P.sha256 digest) = some sig

/-- The signature that waits on a device. -/
def pendingSignature (s : CryptoStore) : Option (ByteArr 512) :=
  if s.signatureSet = 1 then some (s.nCryptoSig s.slotInUse) else none

end

namespace WalletAux

open EndToEndAux SigningAux ExchangeAux

/-! ## One request of the client -/

section

variable {P : Platform} {τ : Type} {T : Transport τ} {device : τ → Device} {d₀ : Device} {w : Wire τ} {m : Option (ByteArr 512)}

/-- The device at the end of the wire: it has the settings of another, and this signature waits on it. -/
structure Holds (device : τ → Device) (d₀ : Device) (w : Wire τ) (m : Option (ByteArr 512)) : Prop where
  settings : SameSettings d₀ (device w.transport)
  pending : pendingSignature (device w.transport).store = m

variable (hT : Delivers P T device)
include hT

/-- A request settled: with the answer when it lists the status word, with the status word otherwise. -/
theorem run_thenElse_send {α : Type} {f : Response → Promise τ α} {g : Rejection → Promise τ α} (request : Request)
    (hlen : request.data.length ≤ 255) (body : List UInt8) {sw : StatusWord} {s : CryptoStore} (hsw : sw < 0x10000)
    (hs : SameSettings d₀ (device w.transport))
    (h : ∀ salt, (exchange P salt (device w.transport) (request.apdu hlen)).2 = some (body ++ swBytes sw) ∧
      (exchange P salt (device w.transport) (request.apdu hlen)).1.store = s) :
    ∃ w', (thenElse (send T request) f g).run w =
        (if sw ∈ request.statusList then f (answer body sw) else g (.statusCode (.number sw))).run w' ∧
      SameSettings d₀ (device w'.transport) ∧ (device w'.transport).store = s := by
  obtain ⟨salt, hdev, hout⟩ := hT w.transport request hlen
  obtain ⟨ho, hstore⟩ := h salt
  refine ⟨⟨(T w.transport request).1, w.sent ++ [request]⟩, run_settled hsw (hout body sw ho) f g, ?_, ?_⟩
  · rw [hdev]
    exact hs.exchange P salt _
  · rw [hdev]
    exact hstore

/-- A query answered with success: the store is as it was. -/
theorem run_query {α : Type} {f : Response → α} {g : Rejection → Promise τ α} (request : Request)
    (hlen : request.data.length ≤ 255) {body : List UInt8} (hw : Holds device d₀ w m) (hlist : apduCodeOk ∈ request.statusList)
    (h : ∀ salt, (exchange P salt (device w.transport) (request.apdu hlen)).2 = some (body ++ swBytes apduCodeOk) ∧
      (exchange P salt (device w.transport) (request.apdu hlen)).1.store = (device w.transport).store) :
    ∃ w', (thenElse (send T request) (fun response => pure (f response)) g).run w = .ok (f (answer body apduCodeOk)) w' ∧
      Holds device d₀ w' m := by
  obtain ⟨w', hrun, hs, hstore⟩ := run_thenElse_send hT (f := fun response => pure (f response)) (g := g)
    request hlen body (show apduCodeOk < 0x10000 by decide) hw.settings h
  rw [if_pos hlist] at hrun
  exact ⟨w', hrun, hs, by rw [hstore]; exact hw.pending⟩

/-- A request that a closed device refuses, with a status word it does not list. -/
theorem run_refused {α : Type} {f : Response → Promise τ α} {g : Rejection → Promise τ α} (request : Request)
    (hlen : request.data.length ≤ 255) {sw : StatusWord} (hw : Holds device d₀ w m) (hclosed : closedCode P d₀ = some sw)
    (hcla : request.cla = cla) (hins : request.insByte ∈ [insGetAddr, insSign, insGetSig, insGetPk]) :
    ∃ w', (thenElse (send T request) f g).run w =
        (if sw ∈ request.statusList then f (answer [] sw) else g (.statusCode (.number sw))).run w' ∧
      Holds device d₀ w' m := by
  have hclosed' : closedCode P (device w.transport) = some sw := by
    rw [← hclosed, closedCode, closedCode, hw.settings.keys.ready, hw.settings.pin]
  obtain ⟨w', hrun, hs, hstore⟩ := run_thenElse_send hT (f := f) (g := g) request hlen [] (closedCode_ne_ok P hclosed).2
    hw.settings (s := (device w.transport).store) fun salt => by
      obtain ⟨io, hex⟩ := exchange_closed P (a := request.apdu hlen) salt hclosed' (min_le_length hlen) hcla hins
      rw [hex]
      exact ⟨rfl, rfl⟩
  exact ⟨w', hrun, hs, by rw [hstore]; exact hw.pending⟩

end

/-! ## What the client reads -/

/-- A sum of four digits whose first one is taken as signed. -/
theorem bmod_add {f g h i : Nat} (hg : g < 256) (hh : h < 256) (hi : i < 256) :
    Int.bmod (f * 16777216) 4294967296 + g * 65536 + h * 256 + i =
      Int.bmod (f * 16777216 + g * 65536 + h * 256 + i) 4294967296 := by
  simp only [Int.bmod_def]
  split <;> split <;> omega

/-- Four bytes as the client adds them up: the signed number of 32 bits that they stand for. -/
theorem shiftLeft24_add (f g h i : UInt8) :
    shiftLeft24 f + g.toNat * 65536 + h.toNat * 256 + i.toNat = Int.bmod (ofBe [f, g, h, i]) 4294967296 := by
  have hbytes : ofBe [f, g, h, i] = f.toNat * 16777216 + g.toNat * 65536 + h.toNat * 256 + i.toNat := by
    change ofBe ([f] ++ ([g] ++ ([h] ++ [i]))) = _
    simp only [ofBe_append, ofBe_singleton, List.length_append, List.length_singleton]
    omega
  rw [hbytes]
  exact bmod_add g.toNat_lt h.toNat_lt i.toNat_lt

/-- The client reads the version that the firmware answered. -/
theorem versionAnswered_firmware (P : Platform) :
    versionAnswered (answer P.version.1 apduCodeOk) = ⟨ReturnCode.noError, Wallet.noErrors, some (firmwareVersion P)⟩ := by
  have hcode : returnCodeOf (answer P.version.1 apduCodeOk) = apduCodeOk := returnCodeOf_answer _ (by decide)
  obtain ⟨a, b, c, d, e, f, g, h, i, hv⟩ : ∃ a b c d e f g h i, P.version.1 = [a, b, c, d, e, f, g, h, i] := by
    have hlen := P.version.2
    match P.version.1, hlen with
    | [a, b, c, d, e, f, g, h, i], _ => exact ⟨a, b, c, d, e, f, g, h, i, rfl⟩
  have htarget : targetId (answer P.version.1 apduCodeOk).1 = Int.bmod (ofBe (slice P.version.1 5 4)) 4294967296 := by
    have hslice : slice P.version.1 5 4 = [f, g, h, i] := by
      rw [hv]
      rfl
    have hlong : (answer P.version.1 apduCodeOk).1.length ≥ 9 := by
      rw [answer, List.length_append, P.version.2]
      exact Nat.le_add_right _ _
    rw [hslice, ← shiftLeft24_add, targetId, if_pos hlong, hv]
    simp only [answer, List.cons_append, List.getD_cons_succ, List.getD_cons_zero]
  unfold versionAnswered firmwareVersion
  rw [htarget, hcode, hv]
  simp [answer, ReturnCode.noError, Wallet.noErrors, apduCodeOk, Common.noError]

/-- The characters of base64url are ASCII. -/
theorem le_of_mem_b64urlText {input : List UInt8} {b : UInt8} (h : b ∈ b64urlText input) : b ≤ 0x7f := by
  have hcharset : ∀ c ∈ b64urlCharset, c ≤ 0x7f := by decide +kernel
  rw [b64urlText_eq] at h
  obtain ⟨i, hi, rfl⟩ := List.mem_map.1 h
  obtain ⟨hlt, hchar⟩ := b64urlChar_eq (sextets_lt input i hi)
  rw [hchar]
  exact hcharset _ (List.get_mem b64urlCharset ⟨i, hlt⟩)

/-- The client reads the address that was answered. -/
theorem processGetAddrResponse_address (P : Platform) (k : RsaPublicKey) :
    processGetAddrResponse (answer (addressOf P k) apduCodeOk) =
      ⟨some (toAscii (addressOf P k)), ReturnCode.noError, Wallet.noErrors⟩ := by
  have hcode : returnCodeOf (answer (addressOf P k) apduCodeOk) = apduCodeOk := returnCodeOf_answer _ (by decide)
  have hdata : (answer (addressOf P k) apduCodeOk).1.take ((answer (addressOf P k) apduCodeOk).1.length - 2) = addressOf P k := by
    rw [answer, List.length_append, show (swBytes apduCodeOk).length = 2 from rfl, Nat.add_sub_cancel, List.take_left]
  have htext : utf8Text (addressOf P k) = toAscii (addressOf P k) := by
    have hascii : ∀ b ∈ addressOf P k, b ≤ 0x7f := fun b hb => le_of_mem_b64urlText hb
    rw [utf8Text_of_ascii hascii, toAscii]
    refine congrArg String.ofList (List.map_congr_left fun b hb => ?_)
    have hlow : b &&& 0x7f = b := by
      apply UInt8.toNat.inj
      rw [UInt8.toNat_and, show (0x7f : UInt8).toNat = 2 ^ 7 - 1 from rfl, Nat.and_two_pow_sub_one_eq_mod]
      exact Nat.mod_eq_of_lt (Nat.lt_succ_of_le (UInt8.le_iff_toNat_le.1 (hascii b hb)))
    rw [hlow]
  rw [processGetAddrResponse, hdata, htext, hcode]
  rfl

/-- The client reads the half that was answered. -/
theorem processGetRSAResponse_half {i : Nat} (hi : i ≤ 1) (b : ByteArr 512) :
    processGetRSAResponse (answer (slice b.1 (i * rsaModulusHalve) rsaModulusHalve) apduCodeOk) =
      ⟨some (slice b.1 (i * rsaModulusHalve) rsaModulusHalve), ReturnCode.noError, Wallet.noErrors⟩ := by
  have hcode : returnCodeOf (answer (slice b.1 (i * rsaModulusHalve) rsaModulusHalve) apduCodeOk) = apduCodeOk :=
    returnCodeOf_answer _ (by decide)
  rw [processGetRSAResponse, hcode, answer, List.take_left' (length_half hi b)]
  rfl

/-- The client reads the version as a digest. -/
theorem digestChunkAnswered_version (P : Platform) :
    digestChunkAnswered (answer P.version.1 apduCodeOk) =
      ⟨ReturnCode.noError, Wallet.noErrors, some (P.version.1 ++ [0x90, 0x00])⟩ := by
  have hcode : returnCodeOf (answer P.version.1 apduCodeOk) = apduCodeOk := returnCodeOf_answer _ (by decide)
  have hlen : (answer P.version.1 apduCodeOk).1.length = 11 := by
    rw [answer, List.length_append, P.version.2]
    rfl
  unfold digestChunkAnswered chunkAnswered
  rw [hcode, hlen, List.take_of_length_le (by omega)]
  rfl

/-! ## The calls -/

section

variable {P : Platform} {H : List UInt8 → ByteArr 48} {τ : Type} {T : Transport τ} {device : τ → Device} {d₀ : Device}
  {w : Wire τ} {m : Option (ByteArr 512)} (b64 : List UInt8 → String) (hT : Delivers P T device)

include hT

/-- A request for the version, whatever it carries: `digest` sends its chunks as such. -/
theorem run_version {α : Type} {f : Response → α} {g : Rejection → Promise τ α} (request : Request)
    (hlen : request.data.length ≤ 255) (hw : Holds device d₀ w m) (hlist : apduCodeOk ∈ request.statusList)
    (hcla : request.cla = cla) (hins : request.insByte = insGetVersion) :
    ∃ w', (thenElse (send T request) (fun response => pure (f response)) g).run w =
        .ok (f (answer P.version.1 apduCodeOk)) w' ∧ Holds device d₀ w' m :=
  run_query hT request hlen hw hlist fun salt => by
    obtain ⟨io, hex⟩ := exchange_version P (a := request.apdu hlen) salt (min_le_length hlen) hcla hins
    rw [hex]
    exact ⟨rfl, rfl⟩

/-- The version comes back, and nothing changes. -/
theorem run_getVersion (hw : Holds device d₀ w m) :
    ∃ w', (getVersion T).run w = .ok ⟨ReturnCode.noError, Wallet.noErrors, some (firmwareVersion P)⟩ w' ∧
      Holds device d₀ w' m := by
  obtain ⟨w', hrun, hw'⟩ := run_version hT (f := versionAnswered) (g := processVersionError) versionRequest
    (Nat.zero_le _) hw (by decide) rfl rfl
  rw [versionAnswered_firmware] at hrun
  exact ⟨w', run_tryCatch_of_ok hrun _, hw'⟩

/-- The loop of `digest`: every chunk is answered with the version. -/
theorem run_digestChunks (chunkNum : Nat) : ∀ (chunks : List (List UInt8)) (i : Nat) (result : DigestResult) (w : Wire τ),
    (∀ c ∈ chunks, c.length ≤ 255) → Holds device d₀ w m →
    ∃ w', (digestChunks T chunkNum i chunks result).run w =
        .ok (if chunks = [] then result
          else ⟨ReturnCode.noError, Wallet.noErrors, some (P.version.1 ++ [0x90, 0x00])⟩) w' ∧ Holds device d₀ w' m := by
  intro chunks
  induction chunks with
  | nil => exact fun i result w _ hw => ⟨w, rfl, hw⟩
  | cons chunk chunks ih =>
    intro i result w hlen hw
    obtain ⟨w₁, hrun, hw₁⟩ := run_version hT (f := digestChunkAnswered) (g := processDigestError)
      (digestChunkRequest (1 + i) chunkNum chunk) (hlen chunk List.mem_cons_self) hw List.mem_cons_self rfl rfl
    rw [digestChunkAnswered_version] at hrun
    obtain ⟨w₂, hruns, hw₂⟩ := ih (i + 1) ⟨ReturnCode.noError, Wallet.noErrors, some (P.version.1 ++ [0x90, 0x00])⟩ w₁
      (fun c hc => hlen c (List.mem_cons_of_mem _ hc)) hw₁
    refine ⟨w₂, ?_, hw₂⟩
    rw [digestChunks, digestSendChunk, run_bind_of_ok hrun, if_neg (not_not.2 rfl), hruns, if_neg (List.cons_ne_nil _ _),
      ite_self]

/-- `digest` asks for the version with every chunk, and hands on the last answer. -/
theorem run_digest (message : TxFields) (hw : Holds device d₀ w m) :
    ∃ w', (digest T message).run w =
        .ok ⟨ReturnCode.noError, Wallet.noErrors, some (P.version.1 ++ [0x90, 0x00])⟩ w' ∧ Holds device d₀ w' m := by
  have hfit : ∀ c ∈ prepareChunks message, c.length ≤ 255 := fun c hc => Nat.le_trans (length_chunk_le hc) (by decide)
  have hne : sliceChunks (encodeTx message) ≠ [] := sliceChunks_ne_nil (encodeTx_ne_nil message)
  obtain ⟨w₁, hrun, hw₁⟩ := run_version hT (f := digestChunkAnswered) (g := processDigestError)
    (digestChunkRequest 1 (prepareChunks message).length (List.replicate 20 0))
    (hfit _ List.mem_cons_self) hw List.mem_cons_self rfl rfl
  obtain ⟨w₂, hruns, hw₂⟩ := run_digestChunks hT (prepareChunks message).length (sliceChunks (encodeTx message)) 1
    ⟨(digestChunkAnswered (answer P.version.1 apduCodeOk)).returnCode,
      (digestChunkAnswered (answer P.version.1 apduCodeOk)).errorMessage, none⟩ w₁
    (fun c hc => hfit c (List.mem_cons_of_mem _ hc)) hw₁
  rw [if_neg hne] at hruns
  refine ⟨w₂, ?_, hw₂⟩
  unfold digest
  rw [run_thenElse_of_ok (by exact hrun)]
  exact hruns

/-! ### The queries for the key -/

section

variable (hready : (device w.transport).store.deviceInitialized = true) (hpin : (device w.transport).pinValidated = true)
  (hkey : d₀.store.slot.initialized = true)
include hready hpin hkey

/-- A query for the address, with or without its review. -/
theorem run_address (p1 : UInt8) (hw : Holds device d₀ w m) :
    ∃ w', (thenElse (send T (addressRequest p1)) (fun response => pure (processGetAddrResponse response))
          processAddressError).run w =
        .ok ⟨some (toAscii (addressOf P d₀.store.slot.rsaPub)), ReturnCode.noError, Wallet.noErrors⟩ w' ∧
      Holds device d₀ w' m := by
  have hr : Reaches (device w.transport) ((addressRequest p1).apdu (Nat.zero_le _)) insGetAddr :=
    Request.reaches (Nat.zero_le _) rfl hready hpin
  have hslot := hw.settings.slot
  obtain ⟨w', hrun, hw'⟩ := run_query hT (f := processGetAddrResponse) (g := processAddressError) (addressRequest p1)
    (Nat.zero_le _) hw List.mem_cons_self fun salt => exchange_address P salt hr rfl (by rw [hslot]; exact hkey)
  rw [hslot, processGetAddrResponse_address] at hrun
  exact ⟨w', hrun, hw'⟩

/-- A query for a half of the modulus. -/
theorem run_getPubKeyPart (partnum : Nat) (hw : Holds device d₀ w m) :
    ∃ w', (getPubKeyPart T partnum).run w =
        .ok ⟨some (slice d₀.store.slot.rsaPub.n.1 (if partnum = 0 then 0 else 256) 256), ReturnCode.noError,
          Wallet.noErrors⟩ w' ∧
      Holds device d₀ w' m := by
  have hr : Reaches (device w.transport) ((publicKeyRequest partnum).apdu (Nat.zero_le _)) insGetPk :=
    Request.reaches (Nat.zero_le _) rfl hready hpin
  have hslot := hw.settings.slot
  have hindex : ((publicKeyRequest partnum).apdu (Nat.zero_le _)).p2.toNat ≤ 1 ∧
      ((publicKeyRequest partnum).apdu (Nat.zero_le _)).p2.toNat * rsaModulusHalve = if partnum = 0 then 0 else 256 := by
    change (if partnum = 0 then (0 : UInt8) else 1).toNat ≤ 1 ∧ (if partnum = 0 then (0 : UInt8) else 1).toNat * 256 = _
    split <;> decide
  obtain ⟨w', hrun, hw'⟩ := run_query hT (f := processGetRSAResponse) (g := processErrorResponse)
    (publicKeyRequest partnum) (Nat.zero_le _) hw List.mem_cons_self fun salt =>
      exchange_publicKey P salt hr rfl (by rw [hslot]; exact hkey) hindex.1
  rw [hslot, processGetRSAResponse_half hindex.1, hindex.2] at hrun
  exact ⟨w', hrun, hw'⟩

end

end

/-! ### The signature -/

section

variable {P : Platform} {H : List UInt8 → ByteArr 48} {τ : Type} {T : Transport τ} {device : τ → Device} {d₀ : Device}
  {w : Wire τ} {m : Option (ByteArr 512)} (hT : Delivers P T device)
include hT

section

variable (hready : (device w.transport).store.deviceInitialized = true) (hpin : (device w.transport).pinValidated = true)
include hready hpin

/-- A half of a signature, when none waits. -/
theorem run_getSignaturePart_none (partnum : Nat) (hw : Holds device d₀ w none) :
    ∃ w', (getSignaturePart T partnum).run w =
        .ok ⟨none, .number 0x6985, "Conditions not satisfied"⟩ w' ∧ Holds device d₀ w' none := by
  have hr : Reaches (device w.transport) ((signatureRequest partnum).apdu (Nat.zero_le _)) insGetSig :=
    Request.reaches (Nat.zero_le _) rfl hready hpin
  have hset : (device w.transport).store.signatureSet ≠ 1 := by
    intro hset
    have hpending := hw.pending
    rw [pendingSignature, if_pos hset] at hpending
    cases hpending
  obtain ⟨w', hrun, hs, hstore⟩ := run_thenElse_send hT (f := fun response => pure (processGetRSAResponse response))
    (g := processErrorResponse) (signatureRequest partnum) (Nat.zero_le _) []
    (show apduCodeConditionsNotSatisfied < 0x10000 by decide) hw.settings (s := (device w.transport).store) fun salt => by
      obtain ⟨io, hex⟩ := exchange_noSignature P (a := (signatureRequest partnum).apdu (Nat.zero_le _)) salt hr rfl hset
      rw [hex]
      exact ⟨rfl, rfl⟩
  exact ⟨w', hrun, hs, by rw [hstore]; exact hw.pending⟩

/-- A half of the signature that waits; the second one clears it. -/
theorem run_getSignaturePart_some (partnum : Nat) {sig : ByteArr 512} (hw : Holds device d₀ w (some sig)) :
    ∃ w', (getSignaturePart T partnum).run w =
        .ok ⟨some (slice sig.1 (if partnum = 0 then 0 else 256) 256), ReturnCode.noError, Wallet.noErrors⟩ w' ∧
      Holds device d₀ w' (if partnum = 0 then some sig else none) := by
  have hr : Reaches (device w.transport) ((signatureRequest partnum).apdu (Nat.zero_le _)) insGetSig :=
    Request.reaches (Nat.zero_le _) rfl hready hpin
  obtain ⟨hset, hsig⟩ : (device w.transport).store.signatureSet = 1 ∧
      (device w.transport).store.nCryptoSig (device w.transport).store.slotInUse = sig := by
    have hpending := hw.pending
    rw [pendingSignature] at hpending
    split at hpending
    · rename_i hset
      exact ⟨hset, Option.some.inj hpending⟩
    · cases hpending
  have hindex : ((signatureRequest partnum).apdu (Nat.zero_le _)).p2.toNat = if partnum = 0 then 0 else 1 := by
    change (if partnum = 0 then (0 : UInt8) else 1).toNat = _
    split <;> rfl
  have hle : ((signatureRequest partnum).apdu (Nat.zero_le _)).p2.toNat ≤ 1 := by
    rw [hindex]
    split <;> decide
  have hoffset : ((signatureRequest partnum).apdu (Nat.zero_le _)).p2.toNat * rsaModulusHalve =
      if partnum = 0 then 0 else 256 := by
    rw [hindex]
    split <;> rfl
  obtain ⟨w', hrun, hs, hstore⟩ := run_thenElse_send hT (f := fun response => pure (processGetRSAResponse response))
    (g := processErrorResponse) (signatureRequest partnum) (Nat.zero_le _) _
    (s := if ((signatureRequest partnum).apdu (Nat.zero_le _)).p2.toNat = 1 then clearSignature (device w.transport).store
      else (device w.transport).store) (show apduCodeOk < 0x10000 by decide) hw.settings fun salt => by
      obtain ⟨io, hex⟩ := exchange_signature P salt hr rfl hset hle
      rw [hex]
      exact ⟨rfl, rfl⟩
  rw [hsig, if_pos (show apduCodeOk ∈ (signatureRequest partnum).statusList from List.mem_cons_self),
    processGetRSAResponse_half hle, hoffset] at hrun
  refine ⟨w', hrun, hs, ?_⟩
  rw [hstore, hindex]
  by_cases h0 : partnum = 0
  · rw [if_pos h0, if_neg (by decide), if_pos h0]
    exact hw.pending
  · rw [if_neg h0, if_pos rfl, if_neg h0]
    rfl

end

/-! ### Signing -/

variable (hP : AnswersCalls P H d₀.store)

/-- A request keeps the settings of the device, whatever it asks for. -/
theorem keeps_send (request : Request) (hlen : request.data.length ≤ 255) :
    Keeps (fun w : Wire τ => SameSettings d₀ (device w.transport)) (send T request) := by
  intro w hs
  obtain ⟨salt, hdev, -⟩ := hT w.transport request hlen
  have hafter : SameSettings d₀ (device (T w.transport request).1) := by
    rw [hdev]
    exact hs.exchange P salt _
  have hsend := run_send T request w
  constructor
  · intro response w' h
    rw [hsend] at h
    split at h <;> cases h
    exact hafter
  · intro reason w' h
    rw [hsend] at h
    split at h <;> cases h
    exact hafter

omit hT in
/-- `then` with two callbacks keeps what all three promises keep. -/
theorem keeps_thenElse {α β : Type} {I : Wire τ → Prop} {x : Promise τ α} {f : α → Promise τ β} {g : Rejection → Promise τ β}
    (hx : Keeps I x) (hf : ∀ a, Keeps I (f a)) (hg : ∀ e, Keeps I (g e)) : Keeps I (thenElse x f g) := by
  intro w hw
  cases h : x.run w with
  | ok a w₁ =>
    rw [run_thenElse_of_ok h]
    exact hf a w₁ ((hx.state hw).1 a w₁ h)
  | error e w₁ =>
    rw [run_thenElse_of_error h]
    exact hg e w₁ ((hx.state hw).2 e w₁ h)

omit hT in
/-- Making a result of an error sends nothing. -/
theorem keeps_processErrorResponse {I : Wire τ → Prop} (reason : Rejection) : Keeps I (processErrorResponse reason) := by
  cases reason with
  | unprintable => exact Keeps.throw
  | _ => exact Keeps.pure

/-- A chunk keeps the settings. -/
theorem keeps_signSendChunk (chunkIdx chunkNum : Nat) {chunk : List UInt8} (hlen : chunk.length ≤ 255) :
    Keeps (fun w : Wire τ => SameSettings d₀ (device w.transport)) (signSendChunk T chunkIdx chunkNum chunk) :=
  keeps_thenElse (keeps_send hT (chunkRequest chunkIdx chunkNum chunk) hlen) (fun _ => Keeps.pure)
    keeps_processErrorResponse

/-- So do all chunks, by induction on them. -/
theorem keeps_sendChunks (chunkNum : Nat) : ∀ (chunks : List (List UInt8)) (i : Nat) (result : ChunkResult),
    (∀ c ∈ chunks, c.length ≤ 255) →
    Keeps (fun w : Wire τ => SameSettings d₀ (device w.transport)) (sendChunks T chunkNum i chunks result) := by
  intro chunks
  induction chunks with
  | nil => exact fun i result _ => Keeps.pure
  | cons chunk chunks ih =>
    intro i result hlen
    refine Keeps.bind (keeps_signSendChunk hT _ _ (hlen chunk List.mem_cons_self)) fun result' => ?_
    exact Keeps.ite Keeps.pure (ih _ _ fun c hc => hlen c (List.mem_cons_of_mem _ hc))

/-- The chunks of a transaction change no setting. -/
theorem keeps_signGetDigest (message : TxFields) :
    Keeps (fun w : Wire τ => SameSettings d₀ (device w.transport)) (signGetDigest T message) := by
  have hfit : ∀ c ∈ prepareChunks message, c.length ≤ 255 := fun c hc => Nat.le_trans (length_chunk_le hc) (by decide)
  refine keeps_thenElse (keeps_signSendChunk hT _ _ (hfit _ List.mem_cons_self)) (fun response => ?_) fun reason => ?_
  · exact Keeps.bind (keeps_sendChunks hT _ _ _ _ fun c hc => hfit c (List.mem_cons_of_mem _ hc)) fun _ => Keeps.pure
  · exact Keeps.bind (keeps_processErrorResponse reason) fun _ => Keeps.pure

end

section

variable {P : Platform} {H : List UInt8 → ByteArr 48} {τ : Type} {T : Transport τ} {device : τ → Device} {d₀ : Device}
  {w : Wire τ} {m : Option (ByteArr 512)} (b64 : List UInt8 → String)

/-- Devices with the same settings are the same wallet. -/
theorem walletOf_of_settings {d : Device} (h : SameSettings d₀ d) : walletOf P H b64 d = walletOf P H b64 d₀ := by
  have hshown : ∀ tx : TxFields, tx.ShownNormally P d.store = tx.ShownNormally P d₀.store := by
    intro tx
    have howner : OwnerInUse d.store tx.owner ↔ OwnerInUse d₀.store tx.owner := by
      rw [OwnerInUse, OwnerInUse, cryptoStoreIsInitialized, cryptoStoreIsInitialized, h.slot]
    exact propext ⟨fun hs => ⟨howner.1 hs.owner, hs.target, hs.quantity, hs.lastTx⟩,
      fun hs => ⟨howner.2 hs.owner, hs.target, hs.quantity, hs.lastTx⟩⟩
  simp only [walletOf, closedCode, h.keys.ready, h.pin, h.slot, h.capacity, h.expert, hshown]

/-- What can be signed is settled by the settings. -/
theorem accepts_of_settings {d : Device} (h : SameSettings d₀ d) (hbuffer : d₀.upload.buffering.data.length ≤ 16384)
    (message : TxFields) : Accepts P d (encodeTx message) ↔ (walletOf P H b64 d₀).Accepts message := by
  rw [accepts_encodeTx_iff (h.capacity ▸ hbuffer), ← walletOf_of_settings b64 h]
  rfl

variable (hT : Delivers P T device) (hP : AnswersCalls P H d₀.store) (hopen : closedCode P d₀ = none)
  (hbuffer : d₀.upload.buffering.data.length ≤ 16384)
include hT hP hopen hbuffer

omit hT hP hbuffer in
/-- The device of an open wallet is initialised and unlocked. -/
theorem ready_of_holds (hw : Holds device d₀ w m) :
    (device w.transport).store.deviceInitialized = true ∧ (device w.transport).pinValidated = true := by
  obtain ⟨hready, hpin⟩ := ready_of_open P hopen
  exact ⟨hw.settings.keys.ready.trans hready, hw.settings.pin.trans hpin⟩

/-- The chunks of a transaction, on an open device: it is hashed and signed, or refused and nothing changes. -/
theorem run_signGetDigest (message : TxFields) (hw : Holds device d₀ w m) :
    ∃ r w', (signGetDigest T message).run w = .ok r w' ∧
      ((r.returnCode = ReturnCode.noError ∧ (walletOf P H b64 d₀).Accepts message ∧
          r.digest = some ((walletOf P H b64 d₀).deepHash message) ∧
          ∃ sig, (walletOf P H b64 d₀).Signature ((walletOf P H b64 d₀).deepHash message) sig ∧
            Holds device d₀ w' (some sig)) ∨
        (r.returnCode ≠ ReturnCode.noError ∧ ¬(walletOf P H b64 d₀).Accepts message ∧ Holds device d₀ w' m)) := by
  obtain ⟨hready, hpin⟩ := ready_of_holds hopen hw
  have hslot := hw.settings.slot
  have hP' : AnswersCalls P H (device w.transport).store := ⟨hP.hash, by rw [hslot]; exact hP.sign, hP.append⟩
  obtain ⟨r, w', hrun, hsettled⟩ := signGetDigest_settled hT hP' message rfl hready hpin
    (by rw [hw.settings.capacity]; exact hbuffer)
  rw [accepts_of_settings (H := H) b64 hw.settings hbuffer] at hsettled
  have hafter : SameSettings d₀ (device w'.transport) :=
    ((keeps_signGetDigest hT message).state hw.settings).1 r w' hrun
  refine ⟨r, w', hrun, ?_⟩
  rcases hsettled with ⟨hcode, haccepts, -⟩ | ⟨hcode, hno, hstore⟩
  · obtain ⟨_, _, a, digest, salt, sig, -, -, -, hdigest, hsigned⟩ := signGetDigest_ok hT hready hpin hrun hcode
    obtain ⟨u, u', -, hcontent, hvalid, hcap, hparse, hs⟩ := hsigned.parsed
    have hsmall : u.buffering.data.length < 65536 := by
      rw [hcap, hw.settings.capacity]
      exact Nat.lt_of_le_of_lt hbuffer (by decide)
    obtain ⟨-, rfl⟩ := digest_of_message P hP.hash hvalid hsmall (by rw [hcontent, encodeTx_eq_message]) hparse hs
    refine Or.inl ⟨hcode, haccepts, hdigest, sig, ⟨salt, ?_⟩, hafter, ?_⟩
    · rw [← hslot]
      exact hs.signed
    · rw [hsigned.store, pendingSignature, if_pos (show (cryptoStoreSignature sig _).signatureSet = 1 from rfl)]
      exact congrArg some (Function.update_self ..)
  · exact Or.inr ⟨hcode, hno, hafter, by rw [hstore]; exact hw.pending⟩

/-- A transaction, on an open device. -/
theorem run_sign (message : TxFields) (hw : Holds device d₀ w m) :
    ∃ r w' m', (sign T message).run w = .ok r w' ∧ (walletOf P H b64 d₀).Answers m (.sign message) (.signed r) m' ∧
      Holds device d₀ w' m' := by
  obtain ⟨req1, w₁, hrun, hsettled⟩ := run_signGetDigest b64 hT hP hopen hbuffer message hw
  unfold sign
  rw [run_bind_of_ok hrun]
  rcases hsettled with ⟨hcode, haccepts, hdigest, sig, hsig, hw₁⟩ | ⟨hcode, hno, hw₁⟩
  · obtain ⟨hready₁, hpin₁⟩ := ready_of_holds hopen hw₁
    obtain ⟨w₂, hrun₂, hw₂⟩ := run_getSignaturePart_some hT hready₁ hpin₁ 0 hw₁
    rw [if_pos rfl] at hrun₂ hw₂
    obtain ⟨hready₂, hpin₂⟩ := ready_of_holds hopen hw₂
    obtain ⟨w₃, hrun₃, hw₃⟩ := run_getSignaturePart_some hT hready₂ hpin₂ 1 hw₂
    rw [if_neg Nat.one_ne_zero] at hrun₃ hw₃
    rw [if_neg (not_not.2 hcode), run_bind_of_ok hrun₂, if_neg (not_not.2 rfl), run_bind_of_ok hrun₃, if_neg (not_not.2 rfl)]
    refine ⟨_, w₃, none, rfl, ?_, hw₃⟩
    rw [hdigest, halves_append]
    exact .sign hopen haccepts hsig
  · rw [if_pos hcode]
    exact ⟨_, w₁, m, rfl, .signRefused hopen hno hcode, hw₁⟩

end

/-! ### A closed wallet -/

section

variable {P : Platform} {τ : Type} {T : Transport τ} {device : τ → Device} {d₀ : Device} {w : Wire τ}
  {m : Option (ByteArr 512)} (b64 : List UInt8 → String) {sw : StatusWord} (hT : Delivers P T device)
  (hclosed : closedCode P d₀ = some sw)
include hT hclosed

/-- A closed device refuses a chunk. -/
theorem run_signSendChunk_closed (chunkIdx chunkNum : Nat) {chunk : List UInt8} (hlen : chunk.length ≤ 255)
    (hw : Holds device d₀ w m) :
    ∃ errorMessage w', (signSendChunk T chunkIdx chunkNum chunk).run w = .ok ⟨none, .number sw, errorMessage⟩ w' ∧
      Holds device d₀ w' m := by
  obtain ⟨w', hrun, hw'⟩ := run_refused hT (f := fun response => pure (chunkAnswered response)) (g := processErrorResponse)
    (chunkRequest chunkIdx chunkNum chunk) hlen hw hclosed rfl
    (show insSign ∈ [insGetAddr, insSign, insGetSig, insGetPk] by decide)
  by_cases hin : sw ∈ (chunkRequest chunkIdx chunkNum chunk).statusList
  · rw [if_pos hin] at hrun
    have hcode : returnCodeOf (answer [] sw) = sw := returnCodeOf_answer [] (closedCode_ne_ok P hclosed).2
    refine ⟨(chunkAnswered (answer [] sw)).errorMessage, w', hrun.trans ?_, hw'⟩
    rw [chunkAnswered, hcode]
    rfl
  · rw [if_neg hin] at hrun
    exact ⟨_, w', hrun, hw'⟩

/-- A query that a closed device refuses. -/
theorem run_query_closed {α : Type} {f : Response → α} {g : Rejection → Promise τ α} (request : Request)
    (hlen : request.data.length ≤ 255) (hw : Holds device d₀ w m) (hlist : request.statusList = [0x9000])
    (hcla : request.cla = cla) (hins : request.insByte ∈ [insGetAddr, insSign, insGetSig, insGetPk]) :
    ∃ w', (thenElse (send T request) (fun response => pure (f response)) g).run w =
        (g (.statusCode (.number sw))).run w' ∧ Holds device d₀ w' m := by
  have hno : sw ∉ request.statusList := by
    rw [hlist]
    exact fun h => (closedCode_ne_ok P hclosed).1 (List.mem_singleton.1 h)
  obtain ⟨w', hrun, hw'⟩ := run_refused hT (f := fun response => pure (f response)) (g := g) request hlen hw hclosed
    hcla hins
  rw [if_neg hno] at hrun
  exact ⟨w', hrun, hw'⟩

/-- The result of the first chunk is not looked at, that of the second one ends the loop. -/
theorem run_signGetDigest_closed (message : TxFields) (hw : Holds device d₀ w m) :
    ∃ errorMessage w', (signGetDigest T message).run w = .ok ⟨.number sw, errorMessage, none⟩ w' ∧ Holds device d₀ w' m := by
  have hfit : ∀ c ∈ prepareChunks message, c.length ≤ 255 := fun c hc => Nat.le_trans (length_chunk_le hc) (by decide)
  have hne : sliceChunks (encodeTx message) ≠ [] := sliceChunks_ne_nil (encodeTx_ne_nil message)
  obtain ⟨e₁, w₁, hrun₁, hw₁⟩ := run_signSendChunk_closed hT hclosed 1 (prepareChunks message).length
    (hfit (List.replicate 20 0) List.mem_cons_self) hw
  obtain ⟨chunk, chunks, hchunks⟩ := List.exists_cons_of_ne_nil hne
  obtain ⟨e₂, w₂, hrun₂, hw₂⟩ := run_signSendChunk_closed hT hclosed (1 + 1) (prepareChunks message).length
    (hfit chunk (List.mem_cons_of_mem _ (hchunks ▸ List.mem_cons_self))) hw₁
  refine ⟨e₂, w₂, ?_, hw₂⟩
  have hno : (ReturnCode.number sw) ≠ ReturnCode.noError := fun h => (closedCode_ne_ok P hclosed).1 (ReturnCode.number.inj h)
  unfold signGetDigest
  rw [run_thenElse_of_ok (by exact hrun₁), show (prepareChunks message).tail = sliceChunks (encodeTx message) from rfl, hchunks,
    sendChunks]
  have hloop : (signSendChunk T (1 + 1) (prepareChunks message).length chunk >>= fun result =>
      if result.returnCode ≠ ReturnCode.noError then pure result
      else sendChunks T (prepareChunks message).length (1 + 1) chunks result).run w₁ =
        .ok ⟨none, .number sw, e₂⟩ w₂ := by
    rw [run_bind_of_ok hrun₂, if_pos hno]
    rfl
  rw [run_bind_of_ok hloop]
  rfl

/-- Every call but the version and the digest is refused with the code of the device. -/
theorem perform_closed (call : ClientCall) (hcall : ¬call.Open) (hw : Holds device d₀ w m) :
    ∃ errorMessage w', (call.perform T b64).run w = .ok (call.failed (.number sw) errorMessage) w' ∧ Holds device d₀ w' m := by
  have hno : (ReturnCode.number sw) ≠ ReturnCode.noError := fun h => (closedCode_ne_ok P hclosed).1 (ReturnCode.number.inj h)
  cases call with
  | getVersion => exact absurd trivial hcall
  | digest message => exact absurd trivial hcall
  | getAddressHash =>
    obtain ⟨w', hrun, hw'⟩ := run_query_closed hT hclosed (f := processGetAddrResponse) (g := processAddressError)
      (addressRequest Common.onlyRetrieve) (Nat.zero_le _) hw rfl rfl (by decide)
    exact ⟨_, w', by exact run_bind_of_ok hrun _, hw'⟩
  | showAddress =>
    obtain ⟨w', hrun, hw'⟩ := run_query_closed hT hclosed (f := processGetAddrResponse) (g := processAddressError)
      (addressRequest Common.showAddressInDevice) (Nat.zero_le _) hw rfl rfl (by decide)
    exact ⟨_, w', by exact run_bind_of_ok hrun _, hw'⟩
  | getPubKeyPart partnum =>
    obtain ⟨w', hrun, hw'⟩ := run_query_closed hT hclosed (f := processGetRSAResponse) (g := processErrorResponse)
      (publicKeyRequest partnum) (Nat.zero_le _) hw rfl rfl
      (show insGetPk ∈ [insGetAddr, insSign, insGetSig, insGetPk] by decide)
    exact ⟨_, w', by exact run_bind_of_ok hrun _, hw'⟩
  | getSignaturePart partnum =>
    obtain ⟨w', hrun, hw'⟩ := run_query_closed hT hclosed (f := processGetRSAResponse) (g := processErrorResponse)
      (signatureRequest partnum) (Nat.zero_le _) hw rfl rfl
      (show insGetSig ∈ [insGetAddr, insSign, insGetSig, insGetPk] by decide)
    exact ⟨_, w', by exact run_bind_of_ok hrun _, hw'⟩
  | getAddress =>
    obtain ⟨w', hrun, hw'⟩ := run_query_closed hT hclosed (f := processGetAddrResponse) (g := processAddressError)
      (addressRequest Common.onlyRetrieve) (Nat.zero_le _) hw rfl rfl (by decide)
    have hget : (getAddress T b64).run w =
        .ok ⟨none, none, none, .number sw, errorCodeToString (.number sw), none⟩ w' := by
      rw [getAddress, run_bind_of_ok (by exact hrun), if_pos hno]
      rfl
    exact ⟨_, w', run_bind_of_ok hget _, hw'⟩
  | signGetDigest message =>
    obtain ⟨errorMessage, w', hrun, hw'⟩ := run_signGetDigest_closed hT hclosed message hw
    exact ⟨errorMessage, w', run_bind_of_ok hrun _, hw'⟩
  | sign message =>
    obtain ⟨errorMessage, w', hrun, hw'⟩ := run_signGetDigest_closed hT hclosed message hw
    have hsign : (sign T message).run w = .ok ⟨none, none, .number sw, errorMessage, none, none⟩ w' := by
      rw [sign, run_bind_of_ok hrun, if_pos hno]
      rfl
    exact ⟨errorMessage, w', run_bind_of_ok hsign _, hw'⟩

end

/-! ### All calls -/

section

variable {P : Platform} {H : List UInt8 → ByteArr 48} {τ : Type} {T : Transport τ} {device : τ → Device} {d₀ : Device}
  {w : Wire τ} {m : Option (ByteArr 512)} (b64 : List UInt8 → String) (hT : Delivers P T device)
  (hP : AnswersCalls P H d₀.store) (hkey : d₀.store.deviceInitialized = true → d₀.store.slot.initialized = true)
  (hbuffer : d₀.upload.buffering.data.length ≤ 16384)
include hT hP hkey hbuffer

/-- A call on an open device. -/
theorem perform_open (call : ClientCall) (hopen : closedCode P d₀ = none) (hw : Holds device d₀ w m) :
    ∃ result w' m', (call.perform T b64).run w = .ok result w' ∧ (walletOf P H b64 d₀).Answers m call result m' ∧
      Holds device d₀ w' m' := by
  obtain ⟨hready, hpin⟩ := ready_of_holds hopen hw
  have hkey := hkey (ready_of_open P hopen).1
  cases call with
  | getVersion =>
    obtain ⟨w', hrun, hw'⟩ := run_getVersion hT hw
    exact ⟨_, w', m, run_bind_of_ok hrun _, .getVersion, hw'⟩
  | digest message =>
    obtain ⟨w', hrun, hw'⟩ := run_digest hT message hw
    exact ⟨_, w', m, run_bind_of_ok hrun _, .digest, hw'⟩
  | getAddressHash =>
    obtain ⟨w', hrun, hw'⟩ := run_address hT hready hpin hkey Common.onlyRetrieve hw
    exact ⟨_, w', m, by exact run_bind_of_ok hrun _, .getAddressHash hopen, hw'⟩
  | showAddress =>
    obtain ⟨w', hrun, hw'⟩ := run_address hT hready hpin hkey Common.showAddressInDevice hw
    exact ⟨_, w', m, by exact run_bind_of_ok hrun _, .showAddress hopen, hw'⟩
  | getPubKeyPart partnum =>
    obtain ⟨w', hrun, hw'⟩ := run_getPubKeyPart hT hready hpin hkey partnum hw
    exact ⟨_, w', m, run_bind_of_ok hrun _, .getPubKeyPart hopen, hw'⟩
  | getAddress =>
    obtain ⟨w₁, hrun₁, hw₁⟩ := run_address hT hready hpin hkey Common.onlyRetrieve hw
    obtain ⟨hready₁, hpin₁⟩ := ready_of_holds hopen hw₁
    obtain ⟨w₂, hrun₂, hw₂⟩ := run_getPubKeyPart hT hready₁ hpin₁ hkey 0 hw₁
    obtain ⟨hready₂, hpin₂⟩ := ready_of_holds hopen hw₂
    obtain ⟨w₃, hrun₃, hw₃⟩ := run_getPubKeyPart hT hready₂ hpin₂ hkey 1 hw₂
    have hget : (getAddress T b64).run w =
        .ok ⟨some (toAscii (addressOf P d₀.store.slot.rsaPub)), some d₀.store.slot.rsaPub.n.1,
          some (b64 d₀.store.slot.rsaPub.n.1), ReturnCode.noError, Wallet.noErrors, none⟩ w₃ := by
      have hhalves := halves_append d₀.store.slot.rsaPub.n
      rw [getAddress, run_bind_of_ok (by exact hrun₁), if_neg (not_not.2 rfl), run_bind_of_ok hrun₂, if_neg (not_not.2 rfl),
        run_bind_of_ok hrun₃, if_neg (not_not.2 rfl), if_pos rfl, if_neg Nat.one_ne_zero]
      simp only [bufferFrom, pure_bind, hhalves]
      rfl
    exact ⟨_, w₃, m, run_bind_of_ok hget _, .getAddress hopen, hw₃⟩
  | signGetDigest message =>
    obtain ⟨r, w', hrun, hsettled⟩ := run_signGetDigest b64 hT hP hopen hbuffer message hw
    rcases hsettled with ⟨hcode, haccepts, hdigest, sig, hsig, hw'⟩ | ⟨hcode, hno, hw'⟩
    · exact ⟨_, w', some sig, run_bind_of_ok hrun _, .signGetDigest hopen haccepts hsig hcode hdigest, hw'⟩
    · exact ⟨_, w', m, run_bind_of_ok hrun _, .signGetDigestRefused hopen hno hcode, hw'⟩
  | getSignaturePart partnum =>
    cases m with
    | none =>
      obtain ⟨w', hrun, hw'⟩ := run_getSignaturePart_none hT hready hpin partnum hw
      exact ⟨_, w', none, run_bind_of_ok hrun _, .getSignaturePartNone hopen, hw'⟩
    | some sig =>
      obtain ⟨w', hrun, hw'⟩ := run_getSignaturePart_some hT hready hpin partnum hw
      exact ⟨_, w', _, run_bind_of_ok hrun _, .getSignaturePart hopen, hw'⟩
  | sign message =>
    obtain ⟨r, w', m', hrun, hanswers, hw'⟩ := run_sign b64 hT hP hopen hbuffer message hw
    exact ⟨_, w', m', run_bind_of_ok hrun _, hanswers, hw'⟩

/-- Every call is answered as the wallet answers it. -/
theorem refines_wallet : Refines (Holds device d₀) (ClientCall.perform T b64) (walletOf P H b64 d₀).Answers := by
  intro call w m hw
  cases hclosed : closedCode P d₀ with
  | none => exact perform_open b64 hT hP hkey hbuffer call hclosed hw
  | some sw =>
    by_cases hcall : call.Open
    · cases call with
      | getVersion =>
        obtain ⟨w', hrun, hw'⟩ := run_getVersion hT hw
        exact ⟨_, w', m, run_bind_of_ok hrun _, .getVersion, hw'⟩
      | digest message =>
        obtain ⟨w', hrun, hw'⟩ := run_digest hT message hw
        exact ⟨_, w', m, run_bind_of_ok hrun _, .digest, hw'⟩
      | _ => exact absurd hcall id
    · obtain ⟨errorMessage, w', hrun, hw'⟩ := perform_closed b64 hT hclosed call hcall hw
      exact ⟨_, w', m, hrun, .closed hclosed hcall, hw'⟩

end

end WalletAux

open WalletAux

/-- Over every transport that delivers every APDU and every answer to and from a device, an undefined instruction as a zero, while
the user approves and the platform computes hashes and signatures and appends what there is room for: every session of calls of
the client resolves, call by call, as the wallet of the device answers them, whichever signature waited before it; and the device
has its keys and settings afterwards, and the signature that waits in the wallet waits on it. The device is in any state, locked
or not, in which the slot in use holds a key if the device says that it is initialised, and in which the transaction buffer has
at most 16384 bytes and no more is collected in it than it holds. -/
theorem session_refines_wallet (P : Platform) {τ : Type} (T : Transport τ) (device : τ → Device) (hT : Delivers P T device)
    (H : List UInt8 → ByteArr 48) (b64 : List UInt8 → String) (t : τ) (hP : AnswersCalls P H (device t).store)
    (hkey : (device t).store.deviceInitialized = true → (device t).store.slot.initialized = true)
    (hbuffer : (device t).upload.buffering.data.length ≤ 16384) (hvalid : (device t).upload.buffering.Valid)
    (calls : List ClientCall) :
    ∃ results w m, (session (ClientCall.perform T b64) calls).run ⟨t, []⟩ = .ok results w ∧
      Steps (walletOf P H b64 (device t)).Answers (pendingSignature (device t).store) calls results m ∧
      pendingSignature (device w.transport).store = m ∧ walletOf P H b64 (device w.transport) = walletOf P H b64 (device t) := by
  obtain ⟨results, w, m, hrun, hsteps, hw⟩ := (refines_wallet b64 hT hP hkey hbuffer).session calls (s := ⟨t, []⟩)
    (a := pendingSignature (device t).store) ⟨⟨.refl _, rfl, rfl, rfl, hvalid⟩, rfl⟩
  exact ⟨results, w, m, hrun, hsteps, hw.pending, walletOf_of_settings b64 hw.settings⟩

/-- A session over a cable: the address, a signature, half of a signature that was fetched already, and a digest. -/
theorem session_refines_wallet_cable :
    let b64 : List UInt8 → String := fun bytes => toAscii (b64urlText bytes)
    let calls : List ClientCall := [.getAddress, .sign Demo.tx, .getSignaturePart 0, .digest Demo.tx]
    ∃ results w m, (session (ClientCall.perform (cable Demo.platform 0) b64) calls).run ⟨Demo.device 1000, []⟩ = .ok results w ∧
      Steps (walletOf Demo.platform (ByteArr.ofList 48) b64 (Demo.device 1000)).Answers none calls results m := by
  intro b64 calls
  have hbuffer : (Demo.device 1000).upload.buffering.data.length ≤ 16384 := by
    rw [Demo.device, List.length_replicate]
    decide
  obtain ⟨results, w, m, hrun, hsteps, -⟩ := session_refines_wallet Demo.platform (cable Demo.platform 0) id
    (delivers_cable Demo.platform 0) (ByteArr.ofList 48) b64 (Demo.device 1000) (answersCalls_demo _) (fun _ => rfl) hbuffer
    ⟨Nat.zero_le _, Nat.zero_le _⟩ calls
  exact ⟨results, w, m, hrun, hsteps⟩

end LedgerArweave
