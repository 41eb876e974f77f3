import CoinScript.Proofs.Machine.Admission
import CoinScript.Proofs.Verification.Protocol

/-!
What a script can learn of its setting.

The transaction that spends, the input, the rules and the chain are looked at by two kinds of
opcode only: those that check signatures, and those that a network gives a lock time handler or a
function of the host. Until an instruction runs one of these, a script goes the same way in every
setting, log lines and faults included. An occurrence that is skipped or refused does not count.
-/

namespace CoinScript

/-! ### Looking at the setting -/

/-- Whether a handler looks at the setting. A function of the host always may. -/
def Handler.consults : Handler → Bool
  | named .checkLockTime => true
  | named .checkSequence => true
  | named .nop => false
  | host _ _ => true

def Builtin.consults : Builtin → Bool
  | checkSig _ => true
  | checkMultisig _ => true
  | _ => false

/-- Whether an opcode looks at the setting when it runs, through its handler if it has one. -/
def OpcodeTable.consults (t : OpcodeTable) (op : Opcode) : Bool :=
  match t.handler? op with
  | some handler => handler.consults
  | none => (Builtin.ofOpcode? op).any Builtin.consults

/-- Whether an instruction is admitted after some operations. -/
def Instruction.isAdmitted (i : Instruction) (env : Env) (count : Nat) : Bool :=
  Except.isOk <| i.admit env count

namespace Machine

/-- Whether an instruction comes to run an opcode that looks at the setting: it is admitted and
not skipped. -/
def consults (m : Machine) (env : Env) (i : Instruction) : Bool :=
  i.data?.isNone && i.isAdmitted env m.opCount && !m.skips i.opcode && env.table.consults i.opcode

/-- Whether a run comes to an instruction that looks at the setting. -/
def runConsults (env : Env) : List Instruction → Machine → Bool
  | [], _ => false
  | i :: is, m =>
    m.consults env i ||
      match m.executeChecked env i with
      | (.ok _, m) => runConsults env is m
      | (.error _, _) => false

end Machine

/-- Whether a script that runs from a stack comes to look at its setting. -/
def Env.consults (env : Env) (stack : Stack) : Bool :=
  match env.script.instructions with
  | .ok is => Machine.runConsults env is { stack := stack }
  | .error _ => false

def Env.moved (env : Env) (setting : Setting) : Env := { env with setting := setting }

/-! ### One instruction -/

namespace Machine

variable {env : Env} {i : Instruction} {is : List Instruction} {m m' : Machine}

lemma runBuiltin_moved {b : Builtin} (hb : b.consults = false) (setting : Setting) (name : String)
    (offset : Nat) :
    m.runBuiltin (env.moved setting) name offset b = m.runBuiltin env name offset b := by
  cases b with
  | checkSig verify => cases hb
  | checkMultisig verify => cases hb
  | _ => rfl

lemma runHandler_moved {handler : Handler} (h : handler.consults = false) (setting : Setting)
    (op : Opcode) : m.runHandler (env.moved setting) op handler = m.runHandler env op handler := by
  cases handler with
  | host name f => cases h
  | named handler =>
    cases handler with
    | checkLockTime => cases h
    | checkSequence => cases h
    | nop => rfl

lemma perform_moved {op : Opcode} (h : env.table.consults op = false) (setting : Setting)
    (offset : Nat) : m.perform (env.moved setting) op offset = m.perform env op offset := by
  unfold OpcodeTable.consults at h
  unfold perform
  change (match env.table.handler? op with | some handler => _ | none => _) = _
  cases hh : env.table.handler? op with
  | some handler =>
    rw [hh] at h
    exact runHandler_moved h setting op
  | none =>
    rw [hh] at h
    cases hb : Builtin.ofOpcode? op with
    | none => rfl
    | some b =>
      rw [hb] at h
      exact runBuiltin_moved h setting _ offset

lemma runOpcode_moved {op : Opcode} (setting : Setting) (offset : Nat)
    (h : env.refusal? op = none → m.skips op = false → env.table.consults op = false) :
    m.runOpcode (env.moved setting) op offset = m.runOpcode env op offset := by
  have hrun (env : Env) : m.runOpcode env op offset =
      if env.table.isDisabled op then (.error (.disabledOpcode (env.table.name op)), m)
      else if op = Opcode.verIf ∨ op = Opcode.verNotIf then
        (.error (.unsupportedOpcode (env.table.name op)), m)
      else if m.skips op then (.ok s!"{env.table.name op} (not executed)", m)
      else m.perform env op offset := rfl
  rw [hrun, hrun]
  change (if env.table.isDisabled op then _ else _) = _
  by_cases hdisabled : env.table.isDisabled op = true
  · rw [if_pos hdisabled, if_pos hdisabled]
    rfl
  rw [if_neg hdisabled, if_neg hdisabled]
  by_cases hver : op = Opcode.verIf ∨ op = Opcode.verNotIf
  · rw [if_pos hver, if_pos hver]
    rfl
  rw [if_neg hver, if_neg hver]
  by_cases hskips : m.skips op = true
  · rw [if_pos hskips, if_pos hskips]
    rfl
  rw [if_neg hskips, if_neg hskips]
  -- only here may the opcode look at the setting, and it is assumed not to
  have hrefusal : env.refusal? op = none := by
    unfold Env.refusal?
    rw [if_neg hdisabled, if_neg hver]
  exact perform_moved (h hrefusal (Bool.not_eq_true _ ▸ hskips)) setting offset

lemma isAdmitted_of_counted (hd : i.data? = none)
    (hcount : (if Opcode.op16 < i.opcode then m.countOps 1 else .ok m) = .ok m')
    (hrefusal : env.refusal? i.opcode = none) : i.isAdmitted env m.opCount = true := by
  unfold Instruction.isAdmitted Instruction.admit
  rw [hd]
  simp only [hrefusal]
  by_cases hop : Opcode.op16 < i.opcode
  · rw [if_pos hop, countOps_eq_ok] at hcount
    rw [if_pos hop, if_neg fun h => Nat.not_lt.2 hcount.1 h.2]
    rfl
  · rw [if_neg hop, if_neg fun h => Nat.lt_irrefl _ h.1]
    rfl

lemma execute_moved (h : m.consults env i = false) (setting : Setting) :
    m.execute (env.moved setting) i = m.execute env i := by
  unfold consults at h
  unfold execute
  cases hd : i.data? with
  | some data => rfl
  | none =>
    have hop {m' : Machine} (hm : m'.conditions = m.conditions)
        (hcount : (if Opcode.op16 < i.opcode then m.countOps 1 else .ok m) = .ok m') :
        m'.runOpcode (env.moved setting) i.opcode i.offset =
          m'.runOpcode env i.opcode i.offset := by
      refine runOpcode_moved setting i.offset fun hrefusal hskips => ?_
      -- counting does not change which branches run
      have hskips' : m.skips i.opcode = false := by
        unfold skips executing at hskips ⊢
        rwa [hm] at hskips
      rwa [hd, isAdmitted_of_counted hd hcount hrefusal, hskips'] at h
    by_cases hpush : Opcode.op16 < i.opcode
    · simp only [hpush, if_true] at hop ⊢
      cases hcount : m.countOps 1 with
      | error e => rfl
      | ok m' =>
        refine hop ?_ hcount
        rw [(countOps_eq_ok.1 hcount).2]
    · simp only [hpush, if_false] at hop ⊢
      exact hop rfl rfl

lemma executeChecked_moved (h : m.consults env i = false) (setting : Setting) :
    m.executeChecked (env.moved setting) i = m.executeChecked env i := by
  unfold executeChecked
  rw [execute_moved h]

/-! ### Runs -/

/-- **A run that never looks at its setting** is the same in every other, and does not look at that
either. -/
lemma run_moved (h : runConsults env is m = false) (setting : Setting) :
    run (env.moved setting) is m = run env is m ∧
      runConsults (env.moved setting) is m = false := by
  induction is generalizing m with
  | nil => exact ⟨rfl, rfl⟩
  | cons i is ih =>
    rw [runConsults, Bool.or_eq_false_iff] at h
    obtain ⟨hi, hrest⟩ := h
    have hstep := executeChecked_moved hi setting
    -- whether an instruction looks at the setting does not depend on the setting
    have hi' : m.consults (env.moved setting) i = false := hi
    rw [runConsults, hi', Bool.false_or, hstep]
    cases hcheck : m.executeChecked env i with
    | mk reply m' =>
      rw [hcheck] at hrest hstep
      cases reply with
      | error e =>
        rw [run_cons_error hstep, run_cons_error hcheck]
        exact ⟨rfl, rfl⟩
      | ok log =>
        obtain ⟨hrun, hconsults⟩ := ih hrest
        rw [run_cons_ok hstep, run_cons_ok hcheck, hrun]
        exact ⟨rfl, hconsults⟩

end Machine

/-- **A script can only learn of its setting** by opcodes that check signatures or hold a lock time
against the transaction. If it never comes to run one of these, then in every other setting it
shows the same steps, with the same log lines, leaves the same machine behind and ends with the
same fault or without one, and it does not come to run one there either. -/
theorem runScript_secluded (env : Env) (stack : Stack) (h : env.consults stack = false)
    (setting : Setting) :
    runScript { env with setting := setting } stack = runScript env stack ∧
      ({ env with setting := setting } : Env).consults stack = false := by
  change runScript (env.moved setting) stack = _ ∧ (env.moved setting).consults stack = false
  have hscript : (env.moved setting).script.instructions = env.script.instructions := rfl
  unfold Env.consults at h ⊢
  cases his : env.script.instructions with
  | error e =>
    rw [runScript_error (hscript.trans his), runScript_error his, hscript, his]
    exact ⟨rfl, rfl⟩
  | ok is =>
    rw [his] at h
    rw [runScript_ok (hscript.trans his), runScript_ok his, hscript, his]
    exact Machine.run_moved h setting

def skipping : Env where
  table := OpcodeTable.timeLocked
  setting := {}
  phase := .standalone
  script := ⟨[0x00, 0x63, 0xac, 0x67, 0x51, 0x68]⟩

theorem runScript_skipping :
    skipping.consults [] = false ∧
      runScript { skipping with setting := { tx? := some (.new Standard.bitcoin) } } [] =
        runScript skipping [] := by
  have hsecluded : skipping.consults [] = false := by decide +kernel
  exact ⟨hsecluded, (runScript_secluded skipping [] hsecluded _).1⟩

end CoinScript
