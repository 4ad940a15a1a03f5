import LedgerArweave.Lib.Bytes

/-!
# The platform: what the app links against

The constants of `coin.h` and of the APDU interface, the error codes, and the code that is not in the repository: the hash
functions, the RSA and BIP32 calls of the operating system and the formatting and buffering routines of `ledger-zxlib`. That
code is a parameter (`Platform`); its fields say what the app relies on and nothing more.
-/

namespace LedgerArweave

open Lib

/-! ## Error codes -/

/-- `zxerr_t`, without `zxerr_ok`: a function that returns `zxerr_ok` returns. -/
inductive ZxErr where
  | unknown | noData | bufferTooSmall | outOfBounds | invalidCryptoSettings
  deriving DecidableEq, Repr

/-- `parser_error_t`, without `parser_ok`: a function that returns `parser_ok` returns. -/
inductive ParserError where
  | noData | initContextEmpty | displayIdxOutOfRange | displayPageOutOfRange | unexpectedError
  | unexpectedTxVersion | unexpectedType | unexpectedBufferEnd | unexpectedValue | unexpectedNumberItems
  | unexpectedCharacters | unexpectedField | valueOutOfRange | invalidAddress
  | contextMismatch | contextUnexpectedSize | contextInvalidChars | contextUnknownPrefix
  | requiredNonce | requiredMethod
  deriving DecidableEq, Repr

/-- A status word of an APDU answer. -/
abbrev StatusWord : Type := Nat

def apduCodeOk : StatusWord := 0x9000
def apduCodeExecutionError : StatusWord := 0x6400
def apduCodeWrongLength : StatusWord := 0x6700
def apduCodeOutputBufferTooSmall : StatusWord := 0x6983
def apduCodeDataInvalid : StatusWord := 0x6984
def apduCodeConditionsNotSatisfied : StatusWord := 0x6985
def apduCodeCommandNotAllowed : StatusWord := 0x6986
def apduCodeTxNotInitialized : StatusWord := 0x6987
def apduCodeInvalidP1P2 : StatusWord := 0x6B00
def apduCodeInsNotSupported : StatusWord := 0x6D00
def apduCodeClaNotSupported : StatusWord := 0x6E00
def apduCodeSignVerifyError : StatusWord := 0x6F01

/-! ## Constants of the interface -/

def cla : UInt8 := 0x44
def insGetVersion : UInt8 := 0x00
def insGetAddr : UInt8 := 0x01
def insSign : UInt8 := 0x02
def insGetSig : UInt8 := 0x10
def insGetPk : UInt8 := 0x20

def offsetCla : Nat := 0
def offsetIns : Nat := 1
def offsetP1 : Nat := 2
def offsetP2 : Nat := 3
def offsetDataLen : Nat := 4
def offsetData : Nat := 5
def offsetPayloadType : Nat := offsetP1
def apduMinLength : Nat := 5
def ioApduBufferSize : Nat := 260

def p1Init : UInt8 := 0
def p1Add : UInt8 := 1
def p1Last : UInt8 := 2

def rsaPrimeLen : Nat := 256
def rsaModulusHalve : Nat := 256
def sha384DigestLen : Nat := 48
def cxSha256Size : Nat := 32
def masterSeedLen : Nat := 32
def maxNumberTags : Nat := 16

/-! ## Keys -/

/-- `cx_rsa_4096_public_key_t`. -/
structure RsaPublicKey where
  size : Nat
  e : ByteArr 4
  n : ByteArr 512
  deriving DecidableEq, Repr

/-- `cx_rsa_4096_private_key_t`. -/
structure RsaPrivateKey where
  size : Nat
  d : ByteArr 512
  n : ByteArr 512
  deriving DecidableEq, Repr

/-- A key whose bytes are all zero. -/
def RsaPublicKey.zero : RsaPublicKey := ⟨0, ByteArr.zero 4, ByteArr.zero 512⟩

/-- A key whose bytes are all zero. -/
def RsaPrivateKey.zero : RsaPrivateKey := ⟨0, ByteArr.zero 512, ByteArr.zero 512⟩

/-! ## The platform -/

/-- The code the app links against, as the app uses it. -/
structure Platform where
  /-- `cx_hash_sha256`. -/
  sha256 : List UInt8 → ByteArr 32
  /-- `cx_sha384_init` and `cx_hash_no_throw`: the digest, or the error the call reports. -/
  sha384 : List UInt8 → Except ZxErr (ByteArr 48)
  /-- `os_derive_bip32_with_seed_no_throw` on the app's path, for the recovery phrase of the device. -/
  deriveBip32 : String → ByteArr 64
  /-- `cx_math_next_prime_no_throw`. -/
  nextPrime : ByteArr 256 → ByteArr 256
  /-- `cx_rsa_generate_pair_no_throw` for the exponent 65537 and two given primes. -/
  generatePair : ByteArr 512 → RsaPublicKey × RsaPrivateKey
  /-- `cx_rsa_sign_no_throw` with PSS padding: the salt is what the padding draws at random; none when the call fails. -/
  rsaSign : RsaPrivateKey → (salt : Nat) → ByteArr 32 → Option (ByteArr 512)
  /-- How many bytes of a chunk `buffering_append` appends to a buffer of `size` bytes that holds `pos`. -/
  appended : (size pos : Nat) → List UInt8 → Nat
  appended_le_length : ∀ size pos c, appended size pos c ≤ c.length
  appended_le_room : ∀ size pos c, appended size pos c ≤ size - pos
  /-- `pageStringExt`: the page of a text that fits a value buffer of the given length, and the number of pages. -/
  pageStringExt : (outValLen : Nat) → List UInt8 → (pageIdx : Nat) → List UInt8 × Nat
  /-- `intstr_to_fpstr_inplace` on a buffer: the number it returns (0 for an error) and the buffer it leaves. -/
  intstrToFpstrInplace : List UInt8 → (decimals : Nat) → Nat × List UInt8
  /-- `z_str3join` on a buffer with a prefix and a suffix: the buffer it leaves, none when the result does not fit. -/
  zStr3join : List UInt8 → (pre suf : String) → Option (List UInt8)
  /-- `number_inplace_trimming`. -/
  numberInplaceTrimming : List UInt8 → (nonTrimmed : Nat) → List UInt8
  /-- What `CHECK_PIN_VALIDATED` throws on a locked device. -/
  pinCode : StatusWord
  pinCode_ne_ok : pinCode ≠ 0x9000
  pinCode_lt : pinCode < 0x10000
  /-- The bytes `handle_getversion` answers: the test flag, the version, the lock flag and the target. The lock flag,
  `!IS_UX_ALLOWED`, is read anew at each command; here it stays what it is. -/
  version : ByteArr 9

end LedgerArweave
