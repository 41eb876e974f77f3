import CoinScript.Opcode

/-!
The standard mnemonics: one for each opcode that has a meaning, a few second names, and the
opcodes that networks refuse to run unless they say otherwise.
-/

namespace CoinScript.Opcode

def namesFrom (start : Nat) (names : List String) : List (Opcode × String) :=
  (names.zip (List.range names.length)).map fun p => (UInt8.ofNat (start + p.2), p.1)

def standardNames : List (Opcode × String) :=
  [(push0, "OP_0")] ++
  namesFrom 0x4c
    ["OP_PUSHDATA1", "OP_PUSHDATA2", "OP_PUSHDATA4", "OP_1NEGATE", "OP_RESERVED",
     "OP_1", "OP_2", "OP_3", "OP_4", "OP_5", "OP_6", "OP_7", "OP_8",
     "OP_9", "OP_10", "OP_11", "OP_12", "OP_13", "OP_14", "OP_15", "OP_16",
     "OP_NOP", "OP_VER", "OP_IF", "OP_NOTIF", "OP_VERIF", "OP_VERNOTIF", "OP_ELSE", "OP_ENDIF",
     "OP_VERIFY", "OP_RETURN",
     "OP_TOALTSTACK", "OP_FROMALTSTACK", "OP_2DROP", "OP_2DUP", "OP_3DUP", "OP_2OVER", "OP_2ROT",
     "OP_2SWAP", "OP_IFDUP", "OP_DEPTH", "OP_DROP", "OP_DUP", "OP_NIP", "OP_OVER", "OP_PICK",
     "OP_ROLL", "OP_ROT", "OP_SWAP", "OP_TUCK",
     "OP_CAT", "OP_SUBSTR", "OP_LEFT", "OP_RIGHT", "OP_SIZE",
     "OP_INVERT", "OP_AND", "OP_OR", "OP_XOR", "OP_EQUAL", "OP_EQUALVERIFY", "OP_RESERVED1",
     "OP_RESERVED2",
     "OP_1ADD", "OP_1SUB", "OP_2MUL", "OP_2DIV", "OP_NEGATE", "OP_ABS", "OP_NOT", "OP_0NOTEQUAL",
     "OP_ADD", "OP_SUB", "OP_MUL", "OP_DIV", "OP_MOD", "OP_LSHIFT", "OP_RSHIFT", "OP_BOOLAND",
     "OP_BOOLOR", "OP_NUMEQUAL", "OP_NUMEQUALVERIFY", "OP_NUMNOTEQUAL", "OP_LESSTHAN",
     "OP_GREATERTHAN", "OP_LESSTHANOREQUAL", "OP_GREATERTHANOREQUAL", "OP_MIN", "OP_MAX",
     "OP_WITHIN",
     "OP_RIPEMD160", "OP_SHA1", "OP_SHA256", "OP_HASH160", "OP_HASH256", "OP_CODESEPARATOR",
     "OP_CHECKSIG", "OP_CHECKSIGVERIFY", "OP_CHECKMULTISIG", "OP_CHECKMULTISIGVERIFY",
     "OP_NOP1", "OP_CHECKLOCKTIMEVERIFY", "OP_CHECKSEQUENCEVERIFY", "OP_NOP4", "OP_NOP5",
     "OP_NOP6", "OP_NOP7", "OP_NOP8", "OP_NOP9", "OP_NOP10"] ++
  [(0xff, "OP_INVALIDOPCODE")]

/-- Second names, which are read and never written. -/
def aliases : List (String × Opcode) :=
  [("OP_FALSE", push0), ("OP_TRUE", op1), ("OP_NOP2", checkLockTimeVerify),
   ("OP_NOP3", checkSequenceVerify)]

/-- The splice, bitwise and wide arithmetic opcodes. -/
def standardDisabled : List Opcode :=
  [0x7e, 0x7f, 0x80, 0x81, 0x83, 0x84, 0x85, 0x86, 0x8d, 0x8e, 0x95, 0x96, 0x97, 0x98, 0x99]

end CoinScript.Opcode
