import CoinScript.Bytes.Hex
import CoinScript.Schema.Field

/-!
Everything that can go wrong, as causes.

A fault says what happened; the wording is in `Fault.message` and the messages of its parts.
-/

namespace CoinScript

/-- Faults of script bytes and script text. -/
inductive ParseFault where
  | truncatedLength (offset : Nat)
  | truncatedPush (size offset available : Nat)
  | noInstruction (offset : Nat)
  | notPushData (opcode : UInt8)
  | pushTooLong (size : Nat) (opcode : UInt8)
  | unterminatedText (text : String)
  | badHex (word : String) (cause : Hex.Fault)
  | unrecognized (word : String)
  | expectedPushData (word : String)
  | missingPushData (opcode : String)
  deriving DecidableEq

/-- Faults of schemas, of profile configurations and of entities that lack a part. -/
inductive SchemaFault where
  | duplicateField (kind : EntityKind) (field : String)
  | integerWidth (kind : EntityKind) (field : String) (width : Nat)
  | containment (kind : EntityKind) (field : String) (inner : EntityKind)
  | defaultMismatch (kind : EntityKind) (field : String)
  | presenceNotInteger (kind : EntityKind) (field source : String)
  | presenceNotEarlier (kind : EntityKind) (field source : String)
  | inputOutputVectors
  | transactionVector
  | wrongSlot (found expected : EntityKind)
  | configuration
  | unknownOpcode (opcode profile : String)
  | unknownHandler (handler opcode : String)
  | noField (kind : EntityKind) (field : String)
  | notTransaction (kind : EntityKind)
  | noVector (kind : EntityKind)
  | absent (field : String)
  | missing (field : String)
  | noMerkleRoot
  | noHeader
  | noTransactions
  | emptyMerkleTree
  deriving DecidableEq

/-- A field value as far as a message shows it. Entities are not shown. -/
inductive ShownValue where
  | int (v : Int)
  | uint (v : Nat)
  | bytes (b : Bytes)
  | hash (b : Bytes)
  | script (b : Bytes)
  | record
  | records
  deriving DecidableEq

/-- Faults of encoded data and of values that do not fit where they are put. -/
inductive EncodingFault where
  | notShortest (value offset : Nat)
  | trailing (count : Nat) (kind : EntityKind)
  | notPresent (field : String) (kind : EntityKind)
  | outOfRange (value : Int) (field : String)
  | mismatch (value : ShownValue) (encoding : FieldEncoding) (field : String)
  | sequenceTooWide (value : Int)
  | outpointIndexTooWide (value : Int)
  | notHash (field : String)
  | merkleRootSize (size : Nat)
  deriving DecidableEq

/-- Faults of the operands of an opcode, and of conditionals. Each names the opcode. -/
inductive StackFault where
  | unmatchedConditional (opcode : String)
  | emptyAltstack (opcode : String)
  | indexOutOfRange (opcode : String)
  | operandOutOfRange (opcode : String)
  | rangeExceedsOperand (opcode : String)
  | sizesDiffer (opcode : String) (left right : Nat)
  | byZero (opcode : String)
  | shiftTooFar (opcode : String) (bits : Nat)
  | badCount (opcode : String) (ofKeys : Bool)
  | dummyNotEmpty (opcode : String)
  | operandTooLong (opcode : String) (size : Nat)
  deriving DecidableEq

/-- Conditions that a script or a verification asserts and that turned out false. -/
inductive VerifyFault where
  | falseValue (opcode : String)
  | lockingScript
  | notPushOnly
  | noRedeemScript
  | redeemScript
  deriving DecidableEq

/-- Why a lock on the stack refuses a transaction. -/
inductive LockFault where
  | negativeOperand (opcode : String)
  | typesDiffer (operand lockTime : Int)
  | exceedsLockTime (operand lockTime : Int)
  | finalSequence (input : Nat)
  | notReached (lockTime : Int) (isTime : Bool) (reached : Nat)
  | version (version : Int)
  | relativeDisabled (input : Nat)
  | relativeTypesDiffer
  | relativeExceeds (operand sequence : Nat)
  deriving DecidableEq

/-- Faults of secret keys. -/
inductive SignatureFault where
  | secretKey
  deriving DecidableEq

/-- All faults, by the part of the work that meets them. -/
inductive Fault where
  | parse (cause : ParseFault)
  | schema (cause : SchemaFault)
  | truncated (offset needed available : Nat)
  | encoding (cause : EncodingFault)
  | missingOperands (opcode : String) (required : Nat)
  | disabledOpcode (opcode : String)
  | opCountExceeded (max : Nat)
  | stackSizeExceeded (size max : Nat)
  | unterminatedConditional
  | verifyFailed (cause : VerifyFault)
  | unsupportedOpcode (opcode : String)
  | inputOutOfRange (index count : Nat)
  | outputOutOfRange (index count : Nat)
  | stackOperation (cause : StackFault)
  | pushSize (size max : Nat)
  | missingTransaction (opcode : String)
  | opReturn
  | lockTime (cause : LockFault)
  | signature (cause : SignatureFault)
  deriving DecidableEq

/-! ### Wording -/

/-- An opcode byte as two hexadecimal digits. -/
def hexOpcode (b : UInt8) : String :=
  "0x" ++ Hex.encode [b]

def ParseFault.message : ParseFault → String
  | truncatedLength offset => s!"truncated length prefix of push at offset {offset}"
  | truncatedPush size offset available =>
    s!"push of {size} bytes at offset {offset} runs past end of script " ++
      s!"({available} bytes available)"
  | noInstruction offset => s!"no instruction at offset {offset}"
  | notPushData opcode => s!"{hexOpcode opcode} is not a PUSHDATA opcode"
  | pushTooLong size opcode => s!"{size} bytes do not fit a {hexOpcode opcode} push"
  | unterminatedText text => "unterminated string literal \"" ++ text
  | badHex word cause => s!"invalid hex literal {word}: {cause.message}"
  | unrecognized word => s!"unrecognized token {word}"
  | expectedPushData word => s!"expected push data, found {word}"
  | missingPushData opcode => s!"{opcode} at end of script without push data"

def SchemaFault.message : SchemaFault → String
  | duplicateField kind field => s!"{kind.title}: duplicate field {field}"
  | integerWidth kind field width => s!"{kind.title}: field {field} has integer width {width}"
  | containment kind field inner => s!"{kind.title}: field {field} cannot contain {inner.title}"
  | defaultMismatch kind field =>
    s!"{kind.title}: default of {field} does not match its encoding"
  | presenceNotInteger kind field source =>
    s!"{kind.title}: presence of {field} depends on non-integer {source}"
  | presenceNotEarlier kind field source =>
    s!"{kind.title}: presence of {field} depends on {source}, which is not an earlier field"
  | inputOutputVectors =>
    "Transaction: exactly one inputs vector and one outputs vector are required"
  | transactionVector => "Block: exactly one transactions vector is required"
  | wrongSlot found expected =>
    s!"{found.title} schema supplied where {expected.title} was expected"
  | configuration => "invalid profile configuration"
  | unknownOpcode opcode profile => s!"unknown opcode {opcode} in profile {profile}"
  | unknownHandler handler opcode => s!"unknown override handler {handler} for {opcode}"
  | noField kind field => s!"{kind.title} has no field {field}"
  | notTransaction kind => s!"expected a Transaction record, got {kind.title}"
  | noVector kind => s!"transaction has no {kind.title} vector"
  | absent field => s!"field {field} is not present"
  | missing field => s!"required field {field} is missing"
  | noMerkleRoot => s!"header has no {FieldName.merkleRoot} field"
  | noHeader => "block has no header field"
  | noTransactions => "block has no transactions vector"
  | emptyMerkleTree => "cannot compute merkle root of an empty transaction list"

/-- Bytes as decimal numbers in square brackets. -/
def showBytes (b : Bytes) : String :=
  "[" ++ String.intercalate ", " (b.map fun x => toString x.toNat) ++ "]"

def ShownValue.text : ShownValue → String
  | int v => s!"Int({v})"
  | uint v => s!"UInt({v})"
  | bytes b => s!"Bytes({showBytes b})"
  | hash b => s!"Hash({showBytes b})"
  | script b => s!"Script(Script \x7b bytes: {showBytes b} \x7d)"
  | record => "Record"
  | records => "Records"

def EncodingFault.message : EncodingFault → String
  | notShortest value offset => s!"non-canonical compact size {value} at offset {offset}"
  | trailing count kind => s!"{count} trailing byte(s) after {kind.title}"
  | notPresent field kind => s!"field {field} is not present in this {kind.title}"
  | outOfRange value field => s!"{value} out of range for {field}"
  | mismatch .record _ _ => "value Record"
  | mismatch .records _ _ => "value Records"
  | mismatch value encoding field =>
    s!"value {value.text} does not match encoding {encoding.describe} of field {field}"
  | sequenceTooWide value => s!"sequence {value} exceeds 32 bits"
  | outpointIndexTooWide value => s!"outpoint index {value} exceeds 32 bits"
  | notHash field => s!"field {field} does not hold a 32-byte hash"
  | merkleRootSize size => s!"{FieldName.merkleRoot} is {size} bytes, expected 32"

def StackFault.message : StackFault → String
  | unmatchedConditional opcode => s!"{opcode} without a matching OP_IF"
  | emptyAltstack opcode => s!"{opcode} with an empty altstack"
  | indexOutOfRange opcode => s!"{opcode} index out of range"
  | operandOutOfRange opcode => s!"{opcode} operand out of range"
  | rangeExceedsOperand opcode => s!"{opcode} range exceeds the operand"
  | sizesDiffer opcode left right =>
    s!"{opcode} operands differ in size ({left} and {right} bytes)"
  | byZero opcode => s!"{opcode} by zero"
  | shiftTooFar opcode bits => s!"{opcode} by {bits} bits"
  | badCount opcode true => s!"{opcode} has an invalid key count"
  | badCount opcode false => s!"{opcode} has an invalid signature count"
  | dummyNotEmpty opcode => s!"{opcode} dummy element must be empty"
  | operandTooLong opcode size => s!"{opcode} operand is {size} bytes, at most 5 allowed"

def VerifyFault.message : VerifyFault → String
  | falseValue opcode => s!"{opcode} found a false value"
  | lockingScript => "scriptPubKey left an empty or false stack"
  | notPushOnly => "P2SH scriptSig must contain only pushes"
  | noRedeemScript => "P2SH scriptSig pushed no redeem script"
  | redeemScript => "redeem script left an empty or false stack"

def LockFault.message : LockFault → String
  | negativeOperand opcode => s!"negative operand to {opcode}"
  | typesDiffer operand lockTime =>
    s!"lock time {operand} and transaction lock time {lockTime} are of different types"
  | exceedsLockTime operand lockTime =>
    s!"lock time {operand} exceeds transaction lock time {lockTime}"
  | finalSequence input => s!"input {input} has a final sequence"
  | notReached lockTime true reached =>
    s!"transaction lock time {lockTime} not reached at block time {reached}"
  | notReached lockTime false reached =>
    s!"transaction lock time {lockTime} not reached at block height {reached}"
  | version v => s!"transaction version {v} does not support relative lock time"
  | relativeDisabled input => s!"input {input} has relative lock time disabled"
  | relativeTypesDiffer => "relative lock time types differ"
  | relativeExceeds operand sequence =>
    s!"relative lock time {operand} exceeds input sequence {sequence}"

def SignatureFault.message : SignatureFault → String
  | secretKey => "malformed or out-of-range secret key"

namespace Fault

def message : Fault → String
  | parse cause => s!"Script parse error: {cause.message}"
  | schema cause => s!"Schema error: {cause.message}"
  | truncated offset needed available =>
    s!"Truncated input: needed {needed} bytes at offset {offset}, {available} available"
  | encoding cause => s!"Unexpected encoding: {cause.message}"
  | missingOperands opcode required => s!"{opcode} requires {required} stack item(s)"
  | disabledOpcode opcode => s!"Attempted to execute disabled opcode {opcode}"
  | opCountExceeded max => s!"Exceeded maximum of {max} non-push operations"
  | stackSizeExceeded size max => s!"Combined stack size {size} exceeds maximum of {max}"
  | unterminatedConditional => "End of script reached inside an unterminated conditional"
  | verifyFailed cause => s!"Verification failed: {cause.message}"
  | unsupportedOpcode opcode => s!"Unsupported opcode {opcode}"
  | inputOutOfRange index count =>
    s!"Input index {index} out of range for transaction with {count} input(s)"
  | outputOutOfRange index count =>
    s!"No output at index {index} for SIGHASH_SINGLE (transaction has {count} output(s))"
  | stackOperation cause => s!"Invalid stack operation: {cause.message}"
  | pushSize size max => s!"Push of {size} bytes exceeds maximum element size of {max}"
  | missingTransaction opcode => s!"{opcode} requires a spending transaction"
  | opReturn => "OP_RETURN encountered"
  | lockTime cause => s!"Lock time check failed: {cause.message}"
  | signature cause => s!"Signature error: {cause.message}"

/-- Whether a signature hash does not exist because an index is out of range. -/
def isSighashRange : Fault → Bool
  | inputOutOfRange _ _ | outputOutOfRange _ _ => true
  | _ => false

end Fault

end CoinScript
