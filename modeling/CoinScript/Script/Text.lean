import CoinScript.Number
import CoinScript.Opcode.Table
import CoinScript.Script

/-!
Scripts as text, read and written.

Text is a sequence of tokens between blanks: mnemonics, hexadecimal literals with `0x` before
them, decimal numbers, string literals in double quotes, and hexadecimal digits on their own
where nothing else fits. An opcode with a length behind it takes its data from the literal
that follows. Written text has one token for each instruction, two for a push that is longer
than it need be.
-/

namespace CoinScript

/-- The characters with the property White_Space. -/
def isBlank (c : Char) : Bool :=
  let n := c.toNat
  (9 ≤ n && n ≤ 13) || n == 0x20 || n == 0x85 || n == 0xa0 || n == 0x1680
    || (0x2000 ≤ n && n ≤ 0x200a) || n == 0x2028 || n == 0x2029 || n == 0x202f
    || n == 0x205f || n == 0x3000

def utf8 (cs : List Char) : Bytes :=
  cs.flatMap String.utf8EncodeChar

namespace Text

/-- A word between blanks, or what stands between two quotes. -/
inductive Token where
  | word (cs : List Char)
  | literal (cs : List Char)
  deriving DecidableEq

/-- Where a scan stands: between tokens, in a word or in a string literal. What has been read
of a token is kept in reverse. -/
inductive Mode where
  | between
  | word (read : List Char)
  | literal (read : List Char)

/-- The tokens of the characters left. -/
def scan : Mode → List Char → Except Fault (List Token)
  | .between, [] => .ok []
  | .word w, [] => .ok [.word w.reverse]
  | .literal w, [] => .error (.parse (.unterminatedText (String.ofList w.reverse)))
  | .between, c :: cs =>
    if isBlank c then scan .between cs
    else if c = '"' then scan (.literal []) cs
    else scan (.word [c]) cs
  | .word w, c :: cs =>
    if isBlank c then return .word w.reverse :: (← scan .between cs)
    else if c = '"' then return .word w.reverse :: (← scan (.literal []) cs)
    else scan (.word (c :: w)) cs
  | .literal w, c :: cs =>
    if c = '"' then return .literal w.reverse :: (← scan .between cs)
    else scan (.literal (c :: w)) cs

def tokens (text : String) : Except Fault (List Token) :=
  scan .between text.toList

/-! ### Literals -/

/-- Decimal digits, a minus sign before them allowed. -/
def isDecimal (cs : List Char) : Bool :=
  let digits := match cs with
    | '-' :: rest => rest
    | _ => cs
  !digits.isEmpty && digits.all Char.isDigit

def natOfDigits (cs : List Char) : Nat :=
  cs.foldl (fun n c => 10 * n + (c.toNat - 48)) 0

def decimalValue : List Char → Int
  | '-' :: digits => -(natOfDigits digits : Int)
  | digits => natOfDigits digits

def isHexDigit (c : Char) : Bool :=
  c.isDigit || ('a' ≤ c && c ≤ 'f') || ('A' ≤ c && c ≤ 'F')

/-- The bytes of a literal that is not a string literal. -/
def literalBytes (word : List Char) : Except Fault Bytes :=
  match word with
  | '0' :: 'x' :: digits | '0' :: 'X' :: digits =>
    match Hex.decode (utf8 digits) with
    | .ok b => .ok b
    | .error e => .error (.parse (.badHex (String.ofList word) e))
  | _ =>
    let unrecognized := .error (.parse (.unrecognized (String.ofList word)))
    if isDecimal word then .ok (Number.encode (decimalValue word))
    else if word.length % 2 = 0 ∧ word.all isHexDigit then
      match Hex.decode (utf8 word) with
      | .ok b => .ok b
      | .error _ => unrecognized
    else unrecognized

/-- What a word means: an opcode if it names one, or else data. -/
inductive Item where
  | opcode (op : Opcode) (word : List Char)
  | data (b : Bytes)

def Item.ofToken (t : OpcodeTable) : Token → Except Fault Item
  | .literal cs => .ok (.data (utf8 cs))
  | .word cs =>
    match t.value? (String.ofList cs) with
    | some op => .ok (.opcode op cs)
    | none => return .data (← literalBytes cs)

/-- The script of a list of tokens. `pending` is an opcode that waits for its data. -/
def assemble (t : OpcodeTable) : (pending : Option Opcode) → List Token → Except Fault Script
  | none, [] => .ok Script.empty
  | some op, [] => .error (.parse (.missingPushData (t.name op)))
  | pending, token :: rest => do
    match pending, ← Item.ofToken t token with
    | some _, .opcode _ word => throw (.parse (.expectedPushData (String.ofList word)))
    | none, .opcode op _ =>
      if op.isPushData then assemble t (some op) rest
      else return (Script.empty.pushOpcode op).append (← assemble t none rest)
    | none, .data b => return (Script.empty.pushData b).append (← assemble t none rest)
    | some op, .data b =>
      let push ← Script.empty.pushDataWith op b
      return push.append (← assemble t none rest)

/-! ### Writing -/

/-- Whether bytes are written as a string literal: printable ASCII without the quote. -/
def isPrintable (b : Bytes) : Bool :=
  !b.isEmpty && b.all fun x => 32 ≤ x && x < 127 && x != 34

/-- Data as a string literal if it is printable, or else as digits. -/
def renderLiteral (b : Bytes) : String :=
  if isPrintable b then
    "\"" ++ String.ofList (b.map fun x => Char.ofNat x.toNat) ++ "\""
  else "0x" ++ Hex.encode b

def renderInstruction (t : OpcodeTable) (i : Instruction) : String :=
  match i.data? with
  | none => t.name i.opcode
  | some data =>
    if i.opcode = Opcode.push0 then t.name i.opcode
    else if i.opcode = Opcode.canonicalPush data.length then renderLiteral data
    else t.name i.opcode ++ " " ++ renderLiteral data

end Text

namespace Script

def ofText (t : OpcodeTable) (text : String) : Except Fault Script := do
  Text.assemble t none (← Text.tokens text)

def toText (t : OpcodeTable) (s : Script) : Except Fault String := do
  let is ← s.instructions
  return String.intercalate " " (is.map (Text.renderInstruction t))

end Script

end CoinScript
