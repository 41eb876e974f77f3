import CoinScript.Proofs.Machine.Builtin
import CoinScript.Proofs.Machine.Run
import CoinScript.Proofs.Script.Proper
import CoinScript.Verification

/-!
The work of a run, and what it is charged.

A metered run does what a run does and keeps account besides: of the keys that multiple checks were
let in with, and of every signature check, those of an instruction that fails included. Operations
are counted before the work is done, one for an opcode above the pushes and one for each key. So
the count covers the account after each instruction, and the limit on the count is one on the work.
-/

namespace CoinScript

/-! ### Checks -/

/-- A result or a fault, and the number of signature checks made on the way. -/
def Counted (α : Type) := Except Fault α × Nat

namespace Counted

variable {α β : Type}

instance : Monad Counted where
  pure a := (.ok a, 0)
  bind x f :=
    match x with
    | (.error e, n) => (.error e, n)
    | (.ok a, n) => ((f a).1, n + (f a).2)

/-- What is reached without a check. -/
def free (x : Except Fault α) : Counted α := (x, 0)

/-- One signature check. -/
def check (signature key : Bytes) (code : Script) (tx : Transaction) (index : Nat) :
    Counted Bool :=
  (checkSignature signature key code tx index, 1)

lemma bind_fst (x : Counted α) (f : α → Counted β) : (x >>= f).1 = x.1 >>= fun a => (f a).1 := by
  rcases x with ⟨e | a, n⟩ <;> rfl

lemma bind_snd_le (x : Counted α) (f : α → Counted β) {n : Nat} (h : ∀ a, (f a).2 ≤ n) :
    (x >>= f).2 ≤ x.2 + n := by
  rcases x with ⟨e | a, k⟩
  · exact Nat.le_add_right k n
  · exact Nat.add_le_add_left (h a) k

lemma free_bind_snd_le (x : Except Fault α) (f : α → Counted β) {n : Nat}
    (h : ∀ a, (f a).2 ≤ n) : (free x >>= f).2 ≤ n := by
  rw [← Nat.zero_add n]
  exact bind_snd_le (free x) f h

def matchAll (check : Bytes → Bytes → Counted Bool) : (signatures keys : List Bytes) → Counted Bool
  | [], _ => pure true
  | _ :: _, [] => pure false
  | sig :: sigs, key :: keys => do
    let left := if ← check sig key then sigs else sig :: sigs
    if keys.length < left.length then return false
    matchAll check left keys

lemma matchAll_fst (check : Bytes → Bytes → Counted Bool) (signatures keys : List Bytes) :
    (matchAll check signatures keys).1 =
      Signature.matchAll (fun sig key => (check sig key).1) signatures keys := by
  induction keys generalizing signatures with
  | nil => cases signatures <;> rfl
  | cons key keys ih =>
    cases signatures with
    | nil => rfl
    | cons sig sigs =>
      rw [matchAll, Signature.matchAll, bind_fst]
      congr 1
      funext valid
      by_cases hlt : keys.length < (if valid = true then sigs else sig :: sigs).length
      · simp only [if_pos hlt]
        rfl
      · simp only [if_neg hlt]
        exact ih _

/-- **No key is checked twice.** -/
lemma matchAll_snd_le {check : Bytes → Bytes → Counted Bool} (h : ∀ sig key, (check sig key).2 ≤ 1)
    (signatures keys : List Bytes) : (matchAll check signatures keys).2 ≤ keys.length := by
  induction keys generalizing signatures with
  | nil => cases signatures <;> exact Nat.zero_le _
  | cons key keys ih =>
    cases signatures with
    | nil => exact Nat.zero_le _
    | cons sig sigs =>
      have hone := h sig key
      have hrest : (matchAll check (sig :: sigs) (key :: keys)).2 ≤
          (check sig key).2 + keys.length := by
        refine bind_snd_le _ _ fun valid => ?_
        by_cases hlt : keys.length < (if valid = true then sigs else sig :: sigs).length
        · simp only [if_pos hlt]
          exact Nat.zero_le _
        · simp only [if_neg hlt]
          exact ih _
      rw [List.length_cons]
      omega

end Counted

namespace Effect

variable {setting : Setting} {code : Script} {name : String} {verify : Bool} {s : Stack}

def sigValidCounted (setting : Setting) (code : Script) (tx : Transaction) (key sig : Bytes) :
    Counted Bool := do
  Counted.check sig key (← Counted.free (code.removePush sig)) tx setting.input

def checkSigCounted (setting : Setting) (code : Script) (name : String) (verify : Bool) :
    Stack → Reply × Nat
  | key :: sig :: s =>
    match setting.transaction name with
    | .error e => ((.error e, key :: sig :: s), 0)
    | .ok tx =>
      match sigValidCounted setting code tx key sig with
      | (.error e, n) => ((.error e, s), n)
      | (.ok valid, n) =>
        let reply := Reply.verdict name verify valid
          (s!"{name}: signature " ++ Signature.word valid)
        ((reply.1, reply.2 ++ s), n)
  | s => (missing name 2 s, 0)

def multisigValidCounted (setting : Setting) (code : Script) (name : String)
    (ops : MultisigOperands) : Counted Bool := do
  let tx ← Counted.free (setting.transaction name)
  let code ← Counted.free (Signature.strip code ops.signatures)
  Counted.matchAll (fun sig key => Counted.check sig key code tx setting.input)
    ops.signatures ops.keys

def checkMultisigCounted (setting : Setting) (code : Script) (name : String) (verify : Bool)
    (keyCount : Nat) (s : Stack) : Reply × Nat :=
  match MultisigOperands.take name keyCount s.tail with
  | .error e => ((.error e, s), 0)
  | .ok ops =>
    match multisigValidCounted setting code name ops with
    | (.error e, n) => ((.error e, s), n)
    | (.ok valid, n) =>
      if setting.flags.has Flags.nullDummy && !ops.dummy.isEmpty then
        ((.error (.stackOperation (.dummyNotEmpty name)), ops.below), n)
      else
        let reply := Reply.verdict name verify valid
          (s!"{name}: {ops.signatures.length} of {ops.keys.length} signature(s) "
            ++ Signature.word valid)
        ((reply.1, reply.2 ++ ops.below), n)

lemma checkSigCounted_fst (setting : Setting) (code : Script) (name : String) (verify : Bool)
    (s : Stack) :
    (checkSigCounted setting code name verify s).1 = checkSig setting code name verify s := by
  rcases s with - | ⟨key, - | ⟨sig, s⟩⟩
  · rfl
  · rfl
  · simp only [checkSigCounted, checkSig, two]
    rcases setting.transaction name with e | tx
    · rfl
    · have hvalid : (sigValidCounted setting code tx key sig).1 =
          (do checkSignature sig key (← code.removePush sig) tx setting.input) :=
        Counted.bind_fst _ _
      simp only [← hvalid]
      rcases sigValidCounted setting code tx key sig with ⟨e | valid, n⟩ <;> rfl

lemma checkSigCounted_snd_le (setting : Setting) (code : Script) (name : String) (verify : Bool)
    (s : Stack) : (checkSigCounted setting code name verify s).2 ≤ 1 := by
  rcases s with - | ⟨key, - | ⟨sig, s⟩⟩
  · exact Nat.zero_le _
  · exact Nat.zero_le _
  · simp only [checkSigCounted]
    rcases setting.transaction name with e | tx
    · exact Nat.zero_le _
    · have hone : (sigValidCounted setting code tx key sig).2 ≤ 1 :=
        Counted.free_bind_snd_le _ _ fun _ => Nat.le_refl 1
      rcases hvalid : sigValidCounted setting code tx key sig with ⟨e | valid, n⟩ <;>
        simpa [hvalid] using hone

lemma multisigValidCounted_fst (setting : Setting) (code : Script) (name : String)
    (ops : MultisigOperands) :
    (multisigValidCounted setting code name ops).1 = multisigValid setting code name ops := by
  simp only [multisigValidCounted, multisigValid, Counted.bind_fst, Counted.matchAll_fst]
  rfl

lemma multisigValidCounted_snd_le (setting : Setting) (code : Script) (name : String)
    (ops : MultisigOperands) :
    (multisigValidCounted setting code name ops).2 ≤ ops.keys.length := by
  refine Counted.free_bind_snd_le _ _ fun tx => ?_
  refine Counted.free_bind_snd_le _ _ fun code => ?_
  exact Counted.matchAll_snd_le (fun _ _ => Nat.le_refl 1) _ _

lemma checkMultisigCounted_fst (setting : Setting) (code : Script) (name : String) (verify : Bool)
    (keyCount : Nat) (s : Stack) :
    (checkMultisigCounted setting code name verify keyCount s).1 =
      checkMultisig setting code name verify keyCount s := by
  unfold checkMultisigCounted checkMultisig
  rcases MultisigOperands.take name keyCount s.tail with e | ops
  · rfl
  · simp only [← multisigValidCounted_fst]
    rcases multisigValidCounted setting code name ops with ⟨e | valid, n⟩
    · rfl
    · simp only
      split <;> rfl

lemma checkMultisigCounted_snd_le (setting : Setting) (code : Script) (name : String)
    (verify : Bool) (keyCount : Nat) (s : Stack) :
    (checkMultisigCounted setting code name verify keyCount s).2 ≤ keyCount := by
  unfold checkMultisigCounted
  rcases htake : MultisigOperands.take name keyCount s.tail with e | ops
  · exact Nat.zero_le _
  · obtain ⟨-, -, hkeys, -⟩ := MultisigOperands.take_eq_ok.1 htake
    have hle : (multisigValidCounted setting code name ops).2 ≤ keyCount :=
      hkeys ▸ multisigValidCounted_snd_le setting code name ops
    rcases hvalid : multisigValidCounted setting code name ops with ⟨e | valid, n⟩
    · simpa [hvalid] using hle
    · rw [hvalid] at hle
      change n ≤ keyCount at hle
      simp only [hvalid]
      split <;> exact hle

end Effect

/-! ### Instructions -/

/-- What a run is charged for: keys of multiple checks that were let in, and signature checks. -/
structure Account where
  keys : Nat := 0
  checks : Nat := 0

namespace Machine

variable {env : Env} {m m' : Machine} {i : Instruction} {is : List Instruction}

/-- As `onStack`, for an effect that counts its checks, on so many keys. -/
def onStackMetered (m : Machine) (keys : Nat) (e : Stack → Reply × Nat) : Outcome × Account :=
  (m.onStack fun s => (e s).1, ⟨keys, (e m.stack).2⟩)

/-- As `checkMultisig`. The keys are on account once they are counted as operations. -/
def checkMultisigMetered (m : Machine) (env : Env) (name : String) (verify : Bool) :
    Outcome × Account :=
  match m.stack with
  | [] => ((.error (.missingOperands name 1), m), {})
  | count :: _ =>
    match Signature.count? count maxKeys with
    | none => ((.error (.stackOperation (.badCount name true)), m), {})
    | some keyCount =>
      match m.countOps keyCount with
      | .error e => ((.error e, m), {})
      | .ok m => m.onStackMetered keyCount
          (Effect.checkMultisigCounted env.setting (m.code env) name verify keyCount)

def runBuiltinMetered (m : Machine) (env : Env) (name : String) (offset : Nat) :
    Builtin → Outcome × Account
  | .checkSig verify =>
    m.onStackMetered 0 (Effect.checkSigCounted env.setting (m.code env) name verify)
  | .checkMultisig verify => m.checkMultisigMetered env name verify
  | b => (m.runBuiltin env name offset b, {})

def runOpcodeMetered (m : Machine) (env : Env) (op : Opcode) (offset : Nat) :
    Outcome × Account :=
  let name := env.table.name op
  if env.table.isDisabled op then ((.error (.disabledOpcode name), m), {})
  else if op = Opcode.verIf ∨ op = Opcode.verNotIf then
    ((.error (.unsupportedOpcode name), m), {})
  else if !m.executing && !op.isConditional then ((.ok s!"{name} (not executed)", m), {})
  else
    match env.table.handler? op with
    | some handler => (m.runHandler env op handler, {})
    | none =>
      match Builtin.ofOpcode? op with
      | some b => m.runBuiltinMetered env name offset b
      | none => ((.error (.unsupportedOpcode name), m), {})

def executeMetered (m : Machine) (env : Env) (i : Instruction) : Outcome × Account :=
  match i.data? with
  | some data => (m.push data, {})
  | none =>
    if Opcode.op16 < i.opcode then
      match m.countOps 1 with
      | .error e => ((.error e, m), {})
      | .ok m => m.runOpcodeMetered env i.opcode i.offset
    else m.runOpcodeMetered env i.opcode i.offset

def executeCheckedMetered (m : Machine) (env : Env) (i : Instruction) : Outcome × Account :=
  match m.executeMetered env i with
  | ((.error e, m), account) => ((.error e, m), account)
  | ((.ok log, m), account) =>
    if maxStackSize < m.size then
      ((.error (.stackSizeExceeded m.size maxStackSize), m), account)
    else ((.ok log, m), account)

/-- As `run`, with an account of all instructions, the one that fails included. -/
def runMetered (env : Env) : List Instruction → Machine → Run × Account
  | [], m => (⟨[], m.finish?, m⟩, {})
  | i :: is, m =>
    match m.executeCheckedMetered env i with
    | ((.error e, m), account) => (⟨[], some e, m⟩, account)
    | ((.ok log, m), account) =>
      let r := runMetered env is m
      ({ r.1 with steps := m.stepAfter env i log :: r.1.steps },
        ⟨account.keys + r.2.keys, account.checks + r.2.checks⟩)

/-! ### A metered run is the run -/

lemma checkMultisigMetered_fst (m : Machine) (env : Env) (name : String) (verify : Bool) :
    (m.checkMultisigMetered env name verify).1 = m.checkMultisig env name verify := by
  unfold checkMultisigMetered checkMultisig
  rcases m.stack with - | ⟨count, s⟩
  · rfl
  · rcases hcount : Signature.count? count maxKeys with - | keyCount
    · simp only [hcount]
    · rcases hops : m.countOps keyCount with e | counted
      · simp only [hcount, hops]
      · simp only [hcount, hops, onStackMetered, Effect.checkMultisigCounted_fst]

lemma runBuiltinMetered_fst (m : Machine) (env : Env) (name : String) (offset : Nat)
    (b : Builtin) : (m.runBuiltinMetered env name offset b).1 = m.runBuiltin env name offset b := by
  cases b with
  | checkSig verify =>
    simp only [runBuiltinMetered, runBuiltin, onStackMetered, Effect.checkSigCounted_fst]
  | checkMultisig verify => exact checkMultisigMetered_fst m env name verify
  | _ => rfl

lemma runOpcodeMetered_fst (m : Machine) (env : Env) (op : Opcode) (offset : Nat) :
    (m.runOpcodeMetered env op offset).1 = m.runOpcode env op offset := by
  unfold runOpcodeMetered runOpcode
  rcases env.table.handler? op with - | handler
  · rcases Builtin.ofOpcode? op with - | b
    · simp only [apply_ite Prod.fst]
    · simp only [apply_ite Prod.fst, runBuiltinMetered_fst]
  · simp only [apply_ite Prod.fst]

lemma executeMetered_fst (m : Machine) (env : Env) (i : Instruction) :
    (m.executeMetered env i).1 = m.execute env i := by
  unfold executeMetered execute
  rcases i.data? with - | data
  · rcases m.countOps 1 with e | counted <;>
      simp only [apply_ite Prod.fst, runOpcodeMetered_fst]
  · rfl

lemma executeCheckedMetered_fst (m : Machine) (env : Env) (i : Instruction) :
    (m.executeCheckedMetered env i).1 = m.executeChecked env i := by
  unfold executeCheckedMetered executeChecked
  rw [← executeMetered_fst]
  rcases m.executeMetered env i with ⟨⟨e | log, m'⟩, account⟩
  · rfl
  · simp only [apply_ite Prod.fst]

/-- **A metered run** comes to what the run comes to. -/
lemma runMetered_fst (env : Env) (is : List Instruction) (m : Machine) :
    (runMetered env is m).1 = run env is m := by
  induction is generalizing m with
  | nil => rfl
  | cons i is ih =>
    rw [runMetered, run, ← executeCheckedMetered_fst]
    rcases m.executeCheckedMetered env i with ⟨⟨e | log, m'⟩, account⟩
    · rfl
    · simp only [ih]

/-! ### What is counted -/

/-- The operations that an opcode counts besides its own, and the checks that it makes: the keys on
account are counted, there are no more checks than keys and `own` ones, and the limit holds. -/
structure Covered (m : Machine) (r : Outcome × Account) (own : Nat) : Prop where
  opCount : r.1.2.opCount = m.opCount + r.2.keys
  checks : r.2.checks ≤ r.2.keys + own
  limit : m.opCount ≤ maxOps → r.1.2.opCount ≤ maxOps

lemma covered_of_eq {r : Outcome × Account} {own : Nat} (hops : r.1.2.opCount = m.opCount)
    (haccount : r.2 = {}) : m.Covered r own := by
  refine ⟨?_, ?_, fun h => ?_⟩
  · rw [haccount]
    exact hops
  · rw [haccount]
    exact Nat.zero_le _
  · rwa [hops]

lemma covered_checkMultisig (m : Machine) (env : Env) (name : String) (verify : Bool) :
    m.Covered (m.checkMultisigMetered env name verify) 0 := by
  unfold checkMultisigMetered
  rcases m.stack with - | ⟨count, s⟩
  · exact covered_of_eq rfl rfl
  · rcases hcount : Signature.count? count maxKeys with - | keyCount
    · simp only [hcount]
      exact covered_of_eq rfl rfl
    · rcases hops : m.countOps keyCount with e | counted
      · simp only [hcount, hops]
        exact covered_of_eq rfl rfl
      · obtain ⟨hlimit, rfl⟩ := countOps_eq_ok.1 hops
        simp only [hcount, hops]
        exact ⟨rfl, Effect.checkMultisigCounted_snd_le _ _ _ _ _ _, fun _ => hlimit⟩

lemma covered_runBuiltin (m : Machine) (env : Env) (name : String) (offset : Nat) {b : Builtin}
    {own : Nat} (hown : ∀ verify, b = .checkSig verify → 1 ≤ own) :
    m.Covered (m.runBuiltinMetered env name offset b) own := by
  cases b with
  | checkSig verify =>
    refine ⟨rfl, ?_, id⟩
    have hone := Effect.checkSigCounted_snd_le env.setting (m.code env) name verify m.stack
    change (Effect.checkSigCounted env.setting (m.code env) name verify m.stack).2 ≤ 0 + own
    have := hown verify rfl
    omega
  | checkMultisig verify =>
    have hcovered := covered_checkMultisig m env name verify
    exact ⟨hcovered.opCount, Nat.le_add_right_of_le hcovered.checks, hcovered.limit⟩
  | codeSeparator => exact covered_of_eq rfl rfl
  | _ =>
    refine covered_of_eq ?_ rfl
    exact (keeps_runBuiltin m env name offset (by simp) (by simp)).1

lemma covered_runOpcode (m : Machine) (env : Env) (op : Opcode) (offset : Nat) :
    m.Covered (m.runOpcodeMetered env op offset) (if Opcode.op16 < op then 1 else 0) := by
  unfold runOpcodeMetered
  by_cases hdisabled : env.table.isDisabled op = true
  · rw [if_pos hdisabled]
    exact covered_of_eq rfl rfl
  · rw [if_neg hdisabled]
    by_cases hver : op = Opcode.verIf ∨ op = Opcode.verNotIf
    · rw [if_pos hver]
      exact covered_of_eq rfl rfl
    · rw [if_neg hver]
      by_cases hskip : (!m.executing && !op.isConditional) = true
      · rw [if_pos hskip]
        exact covered_of_eq rfl rfl
      · rw [if_neg hskip]
        rcases env.table.handler? op with - | handler
        · rcases hb : Builtin.ofOpcode? op with - | b
          · exact covered_of_eq rfl rfl
          · refine covered_runBuiltin m env _ offset fun verify hverify => ?_
            -- the operation itself has been counted, and pays for the one check
            have habove : Opcode.op16 < op := Builtin.op16_lt hb (by simp [hverify])
            simp only [if_pos habove, Nat.le_refl]
        · exact covered_of_eq (by cases handler <;> rfl) rfl

end Machine

/-- How many operations an instruction counts for of itself. -/
def Instruction.weight (i : Instruction) : Nat := if Opcode.op16 < i.opcode then 1 else 0

def Step.counts (s : Step) : Bool := Opcode.op16 < s.opcode

lemma Instruction.IsProper.weight_of_data {i : Instruction} (h : i.IsProper) {data : Bytes}
    (hdata : i.data? = some data) : i.weight = 0 := by
  have hle : i.opcode ≤ Opcode.push4 := h.isSome_iff.1 (by rw [hdata]; rfl)
  refine if_neg (UInt8.not_lt.2 (UInt8.le_trans hle ?_))
  decide

namespace Machine

variable {env : Env} {m m' m'' : Machine} {i : Instruction} {is : List Instruction}
  {account account' : Account} {weight weight' : Nat}

/-- The operations counted between two machines cover the checks on account, and the keys together
with other operations. -/
structure Pays (m m' : Machine) (account : Account) (weight : Nat) : Prop where
  checks : m.opCount + account.checks ≤ m'.opCount
  keys : m.opCount + account.keys + weight ≤ m'.opCount
  limit : m.opCount ≤ maxOps → m'.opCount ≤ maxOps

lemma pays_of_eq (h : m'.opCount = m.opCount) : m.Pays m' {} 0 :=
  ⟨Nat.le_of_eq h.symm, Nat.le_of_eq h.symm, fun hle => by rwa [h]⟩

lemma Pays.trans (h : m.Pays m' account weight) (h' : m'.Pays m'' account' weight') :
    m.Pays m'' ⟨account.keys + account'.keys, account.checks + account'.checks⟩
      (weight + weight') := by
  have hchecks := h.checks
  have hkeys := h.keys
  have hchecks' := h'.checks
  have hkeys' := h'.keys
  refine ⟨?_, ?_, fun hle => h'.limit (h.limit hle)⟩
  · simp only
    omega
  · simp only
    omega

lemma Pays.less (h : m.Pays m' account weight) : m.Pays m' account 0 :=
  ⟨h.checks, Nat.le_trans (Nat.le_add_right _ _) h.keys, h.limit⟩

lemma Covered.pays {r : Outcome × Account} (h : m'.Covered r weight)
    (hops : m'.opCount = m.opCount + weight) (hlimit : m.opCount ≤ maxOps → m'.opCount ≤ maxOps) :
    m.Pays r.1.2 r.2 weight := by
  have hcount := h.opCount
  have hchecks := h.checks
  refine ⟨?_, ?_, fun hle => h.limit (hlimit hle)⟩
  · omega
  · omega

/-- **An instruction** pays for its work, and if it succeeds for itself. -/
lemma pays_execute (hi : i.IsProper) {r : Outcome × Account} (h : m.executeMetered env i = r) :
    m.Pays r.1.2 r.2 0 ∧ (r.1.1.isOk = true → m.Pays r.1.2 r.2 i.weight) := by
  subst h
  unfold executeMetered
  rcases hdata : i.data? with - | data
  · by_cases hop : Opcode.op16 < i.opcode
    · have hweight : i.weight = 1 := if_pos hop
      simp only [if_pos hop, hweight]
      rcases hops : m.countOps 1 with e | counted
      · exact ⟨pays_of_eq rfl, fun hok => by cases hok⟩
      · obtain ⟨hlimit, hcounted⟩ := countOps_eq_ok.1 hops
        have hcovered := covered_runOpcode counted env i.opcode i.offset
        rw [if_pos hop] at hcovered
        have hpays := hcovered.pays (by rw [hcounted]) fun _ => by rwa [hcounted]
        exact ⟨hpays.less, fun _ => hpays⟩
    · -- at most a push, or an opcode that checks nothing
      have hweight : i.weight = 0 := if_neg hop
      simp only [if_neg hop, hweight]
      have hcovered := covered_runOpcode m env i.opcode i.offset
      rw [if_neg hop] at hcovered
      have hpays := hcovered.pays rfl id
      exact ⟨hpays, fun _ => hpays⟩
  · rw [hi.weight_of_data hdata]
    have hpays : m.Pays (m.push data).2 {} 0 := pays_of_eq (keeps_push m data).1
    exact ⟨hpays, fun _ => hpays⟩

lemma countP_stepAfter (m : Machine) (env : Env) (i : Instruction) (log : String)
    (steps : List Step) :
    (m.stepAfter env i log :: steps).countP Step.counts =
      i.weight + steps.countP Step.counts := by
  rw [List.countP_cons, Nat.add_comm]
  by_cases hop : Opcode.op16 < i.opcode <;>
    simp [Instruction.weight, Step.counts, stepAfter, hop]

lemma pays_run (h : ∀ i ∈ is, i.IsProper) (m : Machine) :
    m.Pays (runMetered env is m).1.machine (runMetered env is m).2
      ((runMetered env is m).1.steps.countP Step.counts) := by
  induction is generalizing m with
  | nil => exact pays_of_eq rfl
  | cons i is ih =>
    have hi : i.IsProper := h i List.mem_cons_self
    have his : ∀ j ∈ is, j.IsProper := fun j hj => h j (List.mem_cons_of_mem i hj)
    rw [runMetered, executeCheckedMetered]
    rcases hexec : m.executeMetered env i with ⟨⟨e | log, m'⟩, account⟩
    · exact (pays_execute hi hexec).1
    · obtain ⟨hpays, hpaid⟩ := pays_execute hi hexec
      by_cases hsize : maxStackSize < m'.size
      · simp only [if_pos hsize]
        exact hpays
      · simp only [if_neg hsize]
        have hrest := (hpaid rfl).trans (ih his m')
        rwa [← countP_stepAfter m' env i log] at hrest

lemma size_le_of_mem_steps {s : Step} (h : s ∈ (run env is m).steps) :
    s.stack.length + s.altstack.length ≤ maxStackSize := by
  induction is generalizing m with
  | nil => cases h
  | cons i is ih =>
    rcases hi : m.executeChecked env i with ⟨e | log, m'⟩
    · rw [run_cons_error hi] at h
      cases h
    · rw [run_cons_ok hi] at h
      rcases List.mem_cons.1 h with rfl | h
      · exact (executeChecked_eq_ok.1 hi).2
      · exact ih h

end Machine

def runScriptMetered (env : Env) (stack : Stack) : Run × Account :=
  match env.script.instructions with
  | .error e => (⟨[], some e, { stack := stack }⟩, {})
  | .ok is => Machine.runMetered env is { stack := stack }

lemma runScriptMetered_fst (env : Env) (stack : Stack) :
    (runScriptMetered env stack).1 = runScript env stack := by
  unfold runScriptMetered runScript
  rcases env.script.instructions with e | is
  · rfl
  · exact Machine.runMetered_fst env is _

lemma pays_runScript (env : Env) (stack : Stack) :
    Machine.Pays { stack := stack } (runScript env stack).machine (runScriptMetered env stack).2
      ((runScript env stack).steps.countP Step.counts) := by
  rw [← runScriptMetered_fst]
  unfold runScriptMetered
  rcases his : env.script.instructions with e | is
  · exact Machine.pays_of_eq rfl
  · exact Machine.pays_run (Script.instructions_eq_ok_iff.1 his).2.2 _

lemma countP_counts_le (env : Env) (stack : Stack) :
    (runScript env stack).steps.countP Step.counts ≤ 201 := by
  have hpays := pays_runScript env stack
  have hkeys := hpays.keys
  have hlimit := hpays.limit (Nat.zero_le _)
  unfold maxOps at hlimit
  omega

/-- **The limits bound all work.** A metered run is the run. After each of its instructions both
stacks together are within their limit; the opcodes above the pushes that it shows and the keys of
the multiple checks that it let in are together within the limit on operations; and so are the
signature checks, those of an instruction that fails included. -/
theorem runScript_limits (env : Env) (stack : Stack) :
    (runScriptMetered env stack).1 = runScript env stack ∧
      (∀ s ∈ (runScript env stack).steps, s.stack.length + s.altstack.length ≤ 1000) ∧
      (runScript env stack).steps.countP Step.counts + (runScriptMetered env stack).2.keys ≤ 201 ∧
      (runScriptMetered env stack).2.checks ≤ 201 := by
  have hpays := pays_runScript env stack
  have hchecks := hpays.checks
  have hkeys := hpays.keys
  have hlimit := hpays.limit (Nat.zero_le _)
  unfold maxOps at hlimit
  refine ⟨runScriptMetered_fst env stack, fun s hs => ?_, by omega, by omega⟩
  unfold runScript at hs
  rcases his : env.script.instructions with e | is
  · rw [his] at hs
    cases hs
  · rw [his] at hs
    exact Machine.size_le_of_mem_steps hs

end CoinScript
