import CoinScript.Block
import CoinScript.Profile.Text
import CoinScript.Script.Text
import CoinScript.Verification
import CoinScript.Proofs.Record.WellFormed
import CoinScript.Proofs.Wire.Exact
import CoinScript.Proofs.Record.Reading
import CoinScript.Proofs.Record.Occupied
import CoinScript.Proofs.Record.Settling
import CoinScript.Proofs.Record.Reachable
import CoinScript.Proofs.Machine.Run
import CoinScript.Proofs.Record.RoundTrip
import CoinScript.Proofs.Verification.Protocol
import CoinScript.Proofs.Verification.SoftFork
import CoinScript.Proofs.Machine.Nesting
import CoinScript.Proofs.Machine.Structured
import CoinScript.Proofs.Machine.Admission
import CoinScript.Proofs.Opcode.Families
import CoinScript.Proofs.Script.Tiling
import CoinScript.Proofs.Verification.ScriptHash
import CoinScript.Proofs.Record.Slots
import CoinScript.Proofs.Transaction.Parts
import CoinScript.Proofs.Transaction.Frame
import CoinScript.Proofs.SignatureHash.SignedCopy
import CoinScript.Proofs.SignatureHash.Legacy
import CoinScript.Proofs.SignatureHash.Commitment
import CoinScript.Proofs.Script.Proper
import CoinScript.Proofs.Opcode.Mnemonics
import CoinScript.Proofs.Script.Tokens
import CoinScript.Proofs.Script.TextRoundTrip
import CoinScript.Proofs.Script.Spelling
import CoinScript.Proofs.Machine.Steps
import CoinScript.Proofs.Machine.Disabled
import CoinScript.Proofs.Machine.Frame
import CoinScript.Proofs.Record.PrefixFree
import CoinScript.Proofs.Record.Represented
import CoinScript.Proofs.Curve.Modular
import CoinScript.Proofs.Curve.Primality
import CoinScript.Proofs.Curve.Group
import CoinScript.Proofs.Curve.Order
import CoinScript.Proofs.Ecdsa.Key
import CoinScript.Proofs.Ecdsa.Der
import CoinScript.Proofs.Ecdsa.Signing
import CoinScript.Proofs.SignatureHash.Checking
import CoinScript.Proofs.Verification.PayToKey
import CoinScript.Proofs.Positional.Access
import CoinScript.Proofs.Positional.Effects
import CoinScript.Proofs.Positional.Signature
import CoinScript.Proofs.Positional.Run
import CoinScript.Proofs.Machine.Metered
import CoinScript.Proofs.Number
import CoinScript.Proofs.Machine.Growth
import CoinScript.Proofs.Verification.ItemSize
import CoinScript.Proofs.Block.Contents
import CoinScript.Proofs.Block.Recovery
import CoinScript.Proofs.Machine.Driving
import CoinScript.Proofs.Machine.Faults
import CoinScript.Proofs.Machine.Depth
import CoinScript.Proofs.Verification.Conditionals
import CoinScript.Proofs.Machine.Setting
import CoinScript.Proofs.Machine.Matching
import CoinScript.Proofs.Script.Parts
import CoinScript.Proofs.Machine.ScriptCode
import CoinScript.Proofs.Machine.Multisig
import CoinScript.Proofs.Verification.ChainGrowth
import CoinScript.Proofs.Record.Stored
import CoinScript.Proofs.Record.Names
import CoinScript.Proofs.Record.Assignment
import CoinScript.Proofs.Transaction.Accessors
import CoinScript.Proofs.Transaction.Building
import CoinScript.Proofs.TimeLock.Networks
import CoinScript.Proofs.Script.Removal
import CoinScript.Proofs.Merkle
import CoinScript.Proofs.Block.Accessors
import CoinScript.Proofs.Block.Binding
import CoinScript.Proofs.Record.Handled
import CoinScript.Proofs.Block.Commitment
import CoinScript.Proofs.HashFields
import CoinScript.Proofs.Record.Room
import CoinScript.Proofs.Record.Counts
import CoinScript.Proofs.Opcode.Renaming
import CoinScript.Proofs.Profile.Renames
import CoinScript.Proofs.Script.Decimals
import CoinScript.Proofs.Machine.Rearranging
import CoinScript.Proofs.Number.Shortest
import CoinScript.Proofs.Script.Joining
import CoinScript.Proofs.Machine.Operands
import CoinScript.Proofs.Machine.Numeric
import CoinScript.Proofs.Machine.ArithmeticLaws
import CoinScript.Proofs.Machine.Splicing
import CoinScript.Proofs.Wire.Reader
import CoinScript.Proofs.Record.Rewinding
import CoinScript.Proofs.Machine.Truth
import CoinScript.Proofs.Wire.CompactSize
import CoinScript.Proofs.Record.Grounded
