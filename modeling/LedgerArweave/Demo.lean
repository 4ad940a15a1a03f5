import LedgerArweave.Effects
import LedgerArweave.Js.Encode

/-!
# A platform to run the model on

One concrete platform and one device: the formatting and buffering routines do what their documentation says, the hash and key
functions are stand-ins that pad or cut their input. The runs that show a statement's hypotheses can be met, or a property
fails, are runs of this device.
-/

namespace LedgerArweave

open Lib

namespace Demo

/-- `buffering_append`: a chunk is appended whole, or not at all when there is no room for it. -/
def appended (size pos : Nat) (c : List UInt8) : Nat := if c.length ≤ size - pos then c.length else 0

/-- `pageStringExt`: pages of one byte less than the value buffer holds. -/
def pageStringExt (outValLen : Nat) (text : List UInt8) (pageIdx : Nat) : List UInt8 × Nat :=
  let page := outValLen - 1
  let shown := slice text (pageIdx * page) page
  (shown ++ List.replicate (outValLen - shown.length) 0, if page = 0 then 0 else (text.length + page - 1) / page % 256)

/-- `intstr_to_fpstr_inplace`: the digits with a decimal point, or 0 when a character is no digit. -/
def intstrToFpstrInplace (buf : List UInt8) (decimals : Nat) : Nat × List UInt8 :=
  let digits := cString buf
  if digits.all (fun b => 48 ≤ b ∧ b ≤ 57) then
    let digits := digits.dropWhile (· = 48)
    let padded := List.replicate (decimals + 1 - digits.length) 48 ++ digits
    let whole := padded.length - decimals
    let text := padded.take whole ++ [46] ++ padded.drop whole
    if text.length < buf.length then (text.length, text ++ List.replicate (buf.length - text.length) 0) else (0, buf)
  else (0, buf)

/-- `z_str3join`. -/
def zStr3join (buf : List UInt8) (pre suf : String) : Option (List UInt8) :=
  let text := ascii pre ++ cString buf ++ ascii suf
  if text.length < buf.length then some (text ++ List.replicate (buf.length - text.length) 0) else none

/-- `number_inplace_trimming`: the zeros at the end go, but for one after the point. -/
def numberInplaceTrimming (buf : List UInt8) (nonTrimmed : Nat) : List UInt8 :=
  let text := cString buf
  let whole := text.takeWhile (· ≠ 46)
  let fraction := text.drop (whole.length + 1)
  let kept := fraction.take (max nonTrimmed (fraction.reverse.dropWhile (· = 48)).length)
  let text := whole ++ [46] ++ kept
  text ++ List.replicate (buf.length - text.length) 0

/-- The platform. -/
def platform : Platform where
  sha256 := ByteArr.ofList 32
  sha384 x := .ok (ByteArr.ofList 48 x)
  deriveBip32 phrase := ByteArr.ofList 64 (ascii phrase)
  nextPrime := id
  generatePair pq := (⟨512, ByteArr.ofList 4 [0, 1, 0, 1], pq⟩, ⟨512, pq, pq⟩)
  rsaSign _ _ hash := some (ByteArr.ofList 512 (hash.1 ++ hash.1.reverse))
  appended := appended
  appended_le_length size pos c := by
    unfold appended
    split <;> omega
  appended_le_room size pos c := by
    unfold appended
    split <;> omega
  pageStringExt := pageStringExt
  intstrToFpstrInplace := intstrToFpstrInplace
  zStr3join := zStr3join
  numberInplaceTrimming := numberInplaceTrimming
  pinCode := 0x6982
  pinCode_ne_ok := by decide
  pinCode_lt := by decide
  version := ByteArr.ofList 9 [0, 0, 1, 2]

/-- A key store whose first slot holds a key: its modulus is all zero. -/
def store : CryptoStore where
  slotInUse := .one
  deviceInitialized := true
  signatureSet := 0
  nCryptoStore _ := ⟨ByteArr.zero 32, ByteArr.zero 512, ⟨512, ByteArr.zero 4, ByteArr.zero 512⟩, RsaPrivateKey.zero, true⟩
  nCryptoSig _ := ByteArr.zero 512

/-- The device after a boot, unlocked, with a transaction buffer of the given size. -/
def device (bufferSize : Nat) : Device where
  io := List.replicate ioApduBufferSize 0
  upload := ⟨false, ⟨List.replicate bufferSize 0, 0, 0⟩, ParserContext.zero, ParserTx.zero, ParserTx.zero⟩
  store := store
  review := none
  actionAddrResponseLen := 0
  expert := false
  pinValidated := true

theorem device_booted (bufferSize : Nat) : (device bufferSize).Booted := ⟨rfl, rfl, rfl, rfl, rfl, rfl, rfl⟩

/-- The bytes of an APDU, the data cut to what one APDU carries. -/
def apduBytes (ins p1 p2 : UInt8) (data : List UInt8) : List UInt8 :=
  [cla, ins, p1, p2, UInt8.ofNat (data.take 255).length] ++ data.take 255

theorem length_apduBytes (ins p1 p2 : UInt8) (data : List UInt8) :
    (apduBytes ins p1 p2 data).length ≤ ioApduBufferSize := by
  simp only [apduBytes, List.length_append, List.length_take, List.length_cons, List.length_nil, ioApduBufferSize]
  omega

/-- An APDU. -/
def apdu (ins p1 p2 : UInt8) (data : List UInt8) : Apdu := ⟨apduBytes ins p1 p2 data, length_apduBytes ins p1 p2 data⟩

/-- A chunk of a transaction. -/
def sign (p1 : UInt8) (data : List UInt8) : Event := .apdu (apdu insSign p1 0 data)

/-- A transaction of the key of `store`, with one tag; its message is 545 bytes long. -/
def tx : TxFields :=
  ⟨ascii "2", List.replicate 512 0, [1, 2], ascii "10", ascii "3", [5], [([65], [66, 67])], ascii "0", []⟩

/-- The upload of a message of 501 to 750 bytes. -/
def upload (message : List UInt8) : List Event :=
  [sign p1Init [], sign p1Add (slice message 0 250), sign p1Add (slice message 250 250), sign p1Last (slice message 500 250)]

end Demo

end LedgerArweave
