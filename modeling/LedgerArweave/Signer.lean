import LedgerArweave.Lib.Bytes

/-!
# The signer

What the app is for, as a machine of its own. A host sends a transaction in chunks; the signer examines what it has collected and
asks the user; when the user approves, it answers the digest, and the signature of the digest waits for the host in two halves,
of which the second one is handed out last. A signer has no buffers with old content, no objects that a parse leaves behind and
no bytes of commands; its transactions and the reasons to refuse one are of any type.
-/

namespace LedgerArweave

open Lib

/-- What the user is asked. -/
inductive Question (τ : Type) where
  | address
  | transaction (tx : τ)

/-- What the host is answered: success with some data, a status word, or why a transaction is refused. -/
inductive Reply (ε : Type) where
  | done (data : List UInt8)
  | refused (sw : Nat)
  | invalid (e : ε)

/-- What the host asks for. -/
inductive Command where
  /-- No command at all, and the status word that says why. -/
  | malformed (sw : Nat)
  | version
  | address (confirm : Bool)
  | publicKeyPart (index : Nat)
  | signaturePart (index : Nat)
  /-- A query that carries data. -/
  | unwantedData
  | start
  | more (chunk : List UInt8)
  | last (chunk : List UInt8)
  /-- A chunk of no such kind; it may end the upload. -/
  | badChunk (ends : Bool)

/-- The commands that a locked signer serves as well. -/
def Command.always : Command → Bool
  | .malformed _ | .version => true
  | _ => false

/-- What happens to a signer. -/
inductive Input where
  | command (c : Command)
  | approve (salt : Nat)
  | reject
  | setExpert (on : Bool)
  | setLocked (on : Bool)
  /-- Anything that does not concern a signer. -/
  | other

/-- A signer: its key, what it makes of a transaction, and the room it has for one. -/
structure Signer (ε τ : Type) where
  version : List UInt8
  address : List UInt8
  modulus : ByteArr 512
  /-- What a command is answered while the signer is locked. -/
  lockedCode : Nat
  capacity : Nat
  /-- How much of a chunk is taken in, by the room there is in all and what was collected. -/
  taken : (size collected : Nat) → (chunk : List UInt8) → Nat
  /-- The transaction that some bytes are, or why they are refused, by the mode. -/
  examine : (expert : Bool) → List UInt8 → Except ε τ
  digest : τ → List UInt8
  sign : (salt : Nat) → (digest : List UInt8) → Option (ByteArr 512)

/-- The state of a signer. -/
structure SignerState (τ : Type) where
  started : Bool
  size : Nat
  collected : List UInt8
  question : Option (Question τ)
  signature : Option (ByteArr 512)
  expert : Bool
  locked : Bool

namespace Signer

variable {ε τ : Type} (S : Signer ε τ) (s : SignerState τ)

/-- A chunk is collected, and something follows when all of it was taken. -/
def collect (chunk : List UInt8) (next : SignerState τ → SignerState τ × Option (Reply ε)) :
    SignerState τ × Option (Reply ε) :=
  let n := S.taken s.size s.collected.length chunk
  let s' := { s with collected := s.collected ++ chunk.take n }
  if n = chunk.length then next s' else ({ s' with started := false }, some (.refused 0x6983))

/-- What was collected is examined: the user is asked about it, or it is refused. -/
def review : SignerState τ × Option (Reply ε) :=
  match S.examine s.expert s.collected with
  | .error e => (s, some (.invalid e))
  | .ok tx => ({ s with question := some (.transaction tx) }, none)

/-- A command, on a signer that is not locked. -/
def serve : Command → SignerState τ × Option (Reply ε)
  | .malformed sw => (s, some (.refused sw))
  | .version => (s, some (.done S.version))
  | .address confirm =>
    if confirm then ({ s with question := some .address }, none) else (s, some (.done S.address))
  | .publicKeyPart index =>
    if index ≤ 1 then (s, some (.done (slice S.modulus.1 (index * 256) 256))) else (s, some (.refused 0x6985))
  | .signaturePart index =>
    match s.signature with
    | none => (s, some (.refused 0x6985))
    | some sig =>
      if index ≤ 1 then
        ({ s with signature := if index = 1 then none else some sig }, some (.done (slice sig.1 (index * 256) 256)))
      else (s, some (.refused 0x6985))
  | .unwantedData => (s, some (.refused 0x6986))
  | .start => ({ s with started := true, size := S.capacity, collected := [] }, some (.done []))
  | .more chunk => S.collect s chunk fun s => (s, some (.done []))
  | .last chunk => if s.started then S.collect s chunk S.review else (s, some (.refused 0x6987))
  | .badChunk ends => ({ s with started := s.started && !ends }, some (.refused 0x6b00))

/-- A command: a locked signer refuses most of them. -/
def command (c : Command) : SignerState τ × Option (Reply ε) :=
  if s.locked ∧ c.always = false then (s, some (.refused S.lockedCode)) else S.serve s c

/-- The user approves. -/
def approve (salt : Nat) : SignerState τ × Option (Reply ε) :=
  match s.question with
  | none => (s, none)
  | some .address => ({ s with question := none }, some (.done S.address))
  | some (.transaction tx) =>
    match S.sign salt (S.digest tx) with
    | none => ({ s with question := none }, some (.refused 0x6f01))
    | some sig => ({ s with question := none, signature := some sig }, some (.done (S.digest tx)))

/-- The user rejects. -/
def reject : SignerState τ × Option (Reply ε) :=
  match s.question with
  | none => (s, none)
  | some _ => ({ s with question := none }, some (.refused 0x6986))

/-- One step of a signer. -/
def step : Input → SignerState τ × Option (Reply ε)
  | .command c => S.command s c
  | .approve salt => S.approve s salt
  | .reject => reject s
  | .setExpert on => ({ s with expert := on }, none)
  | .setLocked on => ({ s with locked := on }, none)
  | .other => (s, none)

end Signer

end LedgerArweave
