import LedgerArweave.Crypto

/-!
# The address on the screen

`addr.c`: the address has no storage of its own. The review shows the C string at the start of the APDU buffer, where
`app_fill_address` wrote it.
-/

namespace LedgerArweave

open Lib

/-- The bytes of the modulus a key has. -/
def RsaPublicKey.modulus (k : RsaPublicKey) : List UInt8 := k.n.1.take k.size

section

variable (P : Platform)

/-- The address of a key. -/
def addressOf (k : RsaPublicKey) : List UInt8 := b64urlText (P.sha256 k.modulus).1

/-- `pageString`: the pages of a C string. -/
def pageString (outValLen : Nat) (text : List UInt8) (pageIdx : Nat) : EStateM ZxErr ItemOut Unit :=
  modify fun o =>
    let page := P.pageStringExt outValLen (cString text) pageIdx
    { o with val := page.1, pageCount := page.2 }

/-- `addr_getItem`, on the APDU buffer. -/
def addrGetItem (io : List UInt8) (displayIdx : Int) (outKeyLen outValLen pageIdx : Nat) : EStateM ZxErr ItemOut Unit :=
  if displayIdx = 0 then do
    modify fun o => { o with key := snprintfInto o.key outKeyLen (ascii "Address") }
    pageString P outValLen io pageIdx
  else throw .noData

/-- A page that `addr_getItem` shows is a page of the C string in the APDU buffer. -/
theorem run_addrGetItem_ok {io : List UInt8} {displayIdx : Int} {outKeyLen outValLen pageIdx : Nat} {o out : ItemOut}
    (h : (addrGetItem P io displayIdx outKeyLen outValLen pageIdx).run o = .ok () out) :
    displayIdx = 0 ∧ out.val = (P.pageStringExt outValLen (cString io) pageIdx).1 ∧
      out.pageCount = (P.pageStringExt outValLen (cString io) pageIdx).2 := by
  unfold addrGetItem at h
  split at h
  · rename_i h0
    cases h
    exact ⟨h0, rfl, rfl⟩
  · cases h

theorem length_addressOf (k : RsaPublicKey) : (addressOf P k).length = addrStrLen := by
  rw [addressOf, length_b64urlText, (P.sha256 k.modulus).2]
  rfl

/-- `crypto_fillAddress` writes the address of the slot in use. -/
theorem cryptoFillAddress_eq (store : CryptoStore) {bufferLen : Nat} (h : addrStrLen + 4 ≤ bufferLen) :
    cryptoFillAddress P store bufferLen =
      if store.slot.initialized then .ok (addressOf P store.slot.rsaPub) else .error .invalidCryptoSettings := by
  unfold cryptoFillAddress cryptoStoreGetPubkey cryptoStoreIsInitialized
  cases hi : store.slot.initialized with
  | false => rfl
  | true =>
    have hlen := length_addressOf P store.slot.rsaPub
    have hencode : b64urlEncode addrStrLen (P.sha256 store.slot.rsaPub.modulus).1 ⟨cxSha256Size, some 0⟩ =
        some (addrStrLen, addressOf P store.slot.rsaPub) := by
      have hbytes : slice (P.sha256 store.slot.rsaPub.modulus).1 0 cxSha256Size = (P.sha256 store.slot.rsaPub.modulus).1 :=
        List.take_of_length_le (Nat.le_of_eq (P.sha256 store.slot.rsaPub.modulus).2)
      have hroom : ¬b64urlMinimumBufferSize cxSha256Size > addrStrLen := by decide
      simp only [b64urlEncode, if_neg hroom, ParserElement.bytes, hbytes]
      rw [← addressOf, hlen, Nat.sub_self, List.replicate_zero, List.append_nil]
    simp only [Bool.not_true, Bool.false_eq_true, if_false, if_neg (Nat.not_lt.2 h), if_true]
    rw [← RsaPublicKey.modulus, hencode]
    rfl

end

end LedgerArweave
