import LedgerArweave.Lib.Bytes
import LedgerArweave.Lib.Program
import LedgerArweave.Lib.Runs
import LedgerArweave.Parser.Types
import LedgerArweave.Parser.Read
import LedgerArweave.Parser.Message
import LedgerArweave.Parser.Accept
import LedgerArweave.Parser.Digest
import LedgerArweave.Js.Encode
import LedgerArweave.Theorems.RoundTrip
import LedgerArweave.Theorems.Digest
import LedgerArweave.Theorems.Binding
import LedgerArweave.B64url
import LedgerArweave.CryptoStore
import LedgerArweave.Parser.Print
import LedgerArweave.Parser.Items
import LedgerArweave.Tx
import LedgerArweave.Crypto
import LedgerArweave.ApduHandler
import LedgerArweave.Device
import LedgerArweave.Effects
import LedgerArweave.Demo
import LedgerArweave.Formatting
import LedgerArweave.Theorems.Validation
import LedgerArweave.Theorems.Paging
import LedgerArweave.Theorems.ExpertReview
import LedgerArweave.Session
import LedgerArweave.Theorems.Upload
import LedgerArweave.Theorems.Mailbox
import LedgerArweave.Parser.Reparse
import LedgerArweave.Theorems.Review
import LedgerArweave.Theorems.ParsedState
import LedgerArweave.Addr
import LedgerArweave.Theorems.ConfirmedAddress
import LedgerArweave.Boots
import LedgerArweave.Theorems.Crash
import LedgerArweave.KeySlots
import LedgerArweave.Theorems.Eviction
import LedgerArweave.Theorems.Slots
import LedgerArweave.Lifetime
import LedgerArweave.Outages
import LedgerArweave.Theorems.CurrentKey
import LedgerArweave.Js.Client
import LedgerArweave.Theorems.Host
import LedgerArweave.Link
import LedgerArweave.Theorems.EndToEnd
import LedgerArweave.Lib.Coupled
import LedgerArweave.Theorems.Forgets
import LedgerArweave.Lib.Traces
import LedgerArweave.Parser.Traced
import LedgerArweave.Theorems.Bounds
import LedgerArweave.Theorems.Layout
import LedgerArweave.Lib.Bits
import LedgerArweave.B64urlLoop
import LedgerArweave.Theorems.Base64
import LedgerArweave.Lib.BigEndian
import LedgerArweave.Lib.Lucas
import LedgerArweave.Theorems.Modulus
import LedgerArweave.Lib.Double
import LedgerArweave.Lib.EcmaNumber
import LedgerArweave.Js.Path
import LedgerArweave.Theorems.Path
import LedgerArweave.Lib.Iterated
import LedgerArweave.Lib.Roots
import LedgerArweave.Lib.Sha384
import LedgerArweave.Sha512
import LedgerArweave.Theorems.Sha512
import LedgerArweave.HostBuild
import LedgerArweave.Theorems.HostBuild
import LedgerArweave.Theorems.Signing
import LedgerArweave.Lib.Commutes
import LedgerArweave.Theorems.Secrets
import LedgerArweave.Theorems.Answers
import LedgerArweave.Lib.Utf8
import LedgerArweave.Js.Queries
import LedgerArweave.Lib.Refine
import LedgerArweave.Wallet
import LedgerArweave.Exchanges
import LedgerArweave.Theorems.Wallet
import LedgerArweave.Lib.Purge
import LedgerArweave.Theorems.Interference
import LedgerArweave.Theorems.Genuine
import LedgerArweave.Theorems.Phrase
import LedgerArweave.Lib.Simulates
import LedgerArweave.Parser.Decode
import LedgerArweave.Theorems.Refusals
import LedgerArweave.Decisions
import LedgerArweave.Theorems.Outcomes
import LedgerArweave.Signer
import LedgerArweave.Theorems.Refinement
import LedgerArweave.Theorems.OldMemory
