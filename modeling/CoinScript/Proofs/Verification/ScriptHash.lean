import CoinScript.Profile
import CoinScript.Proofs.Machine.Admission
import CoinScript.Proofs.Script.Tiling
import CoinScript.Proofs.Verification.Protocol

/-!
Script hash locks.

A script hash lock does nothing but hash the item on top and compare. So whether such a lock is
undone is a matter of that item alone: its bytes must have the hash, and must do well as a script
that runs from the items below.
-/

namespace CoinScript

/-! ### The lock -/

namespace Script

def embeddedHash (s : Script) : Bytes := (s.bytes.drop 2).take 20

variable {s : Script}

lemma bytes_of_isPayToScriptHash (h : s.isPayToScriptHash = true) :
    s.embeddedHash.length = 20 ∧
      s.bytes = Opcode.hash160 :: 0x14 :: (s.embeddedHash ++ [Opcode.equal]) := by
  rcases s with ⟨bytes⟩
  simp only [isPayToScriptHash, Bool.and_eq_true, beq_iff_eq] at h
  obtain ⟨⟨⟨hlen, h0⟩, h1⟩, h22⟩ := h
  match bytes, hlen, h0, h1, h22 with
  | a :: b :: rest, hlen, h0, h1, h22 =>
    cases h0
    cases h1
    have hrest : rest.length = 21 := by simpa using hlen
    have hlast : rest.drop 20 = [Opcode.equal] := by
      have h20 : rest[20]? = some Opcode.equal := h22
      rw [List.drop_eq_getElem_cons (by omega), List.drop_of_length_le (by omega)]
      rw [List.getElem?_eq_getElem (by omega)] at h20
      rw [Option.some.inj h20]
    have htake : (rest.take 20).length = 20 := by simp [hrest]
    refine ⟨htake, ?_⟩
    change _ = _ :: _ :: (rest.take 20 ++ _)
    rw [← hlast, List.take_append_drop]

lemma instructions_of_isPayToScriptHash (h : s.isPayToScriptHash = true) :
    s.instructions = .ok [⟨Opcode.hash160, none, 0⟩, ⟨0x14, some s.embeddedHash, 1⟩,
      ⟨Opcode.equal, none, 22⟩] := by
  obtain ⟨hlen, hbytes⟩ := bytes_of_isPayToScriptHash h
  have hpush : Instruction.read 1 0x14 (s.embeddedHash ++ [Opcode.equal]) =
      .ok ⟨0x14, some s.embeddedHash, 1⟩ := by
    change Instruction.readData 0x14 1 20 _ = _
    unfold Instruction.readData
    rw [List.take_left' hlen, if_neg (by omega)]
  have hsize : Instruction.size ⟨0x14, some s.embeddedHash, 1⟩ = 21 := by
    change 1 + 0 + s.embeddedHash.length = 21
    omega
  have hequal : Instruction.read 22 Opcode.equal [] = .ok ⟨Opcode.equal, none, 22⟩ := rfl
  have hhash : Instruction.read 0 Opcode.hash160 (0x14 :: (s.embeddedHash ++ [Opcode.equal])) =
      .ok ⟨Opcode.hash160, none, 0⟩ := rfl
  have hrest : (s.embeddedHash ++ [Opcode.equal]).drop 20 = [Opcode.equal] :=
    List.drop_left' hlen
  unfold instructions
  rw [hbytes, instructionsFrom_cons hhash]
  change _ <$> instructionsFrom 0 1 (0x14 :: _) = _
  rw [instructionsFrom_cons hpush, hsize, hrest]
  change _ <$> _ <$> instructionsFrom 0 22 [Opcode.equal] = _
  rw [instructionsFrom_cons hequal]
  rfl

end Script

/-! ### The instructions of the lock -/

/-- A table leaves an opcode its own effect. -/
def OpcodeTable.Keeps (t : OpcodeTable) (op : Opcode) : Prop :=
  t.isDisabled op = false ∧ t.handler? op = none

instance (t : OpcodeTable) (op : Opcode) : Decidable (t.Keeps op) :=
  inferInstanceAs (Decidable (_ ∧ _))

namespace Machine

variable {env : Env} {m m' : Machine} {op : Opcode} {offset : Nat} {data : Bytes}

lemma after_push (hdata : data.length ≤ maxItemSize) (hm : m.executing = true) :
    m.after env ⟨op, some data, offset⟩ = .ok m' ↔
      m.size < maxStackSize ∧ m' = { m with stack := data :: m.stack } := by
  have hadmit : Instruction.admit ⟨op, some data, offset⟩ env m.opCount = .ok m.opCount :=
    if_neg (by omega)
  have heffect : m.effect env ⟨op, some data, offset⟩ =
      .ok { m with stack := data :: m.stack } := by
    simp [effect, hm]
  have hsize : Machine.size { m with stack := data :: m.stack } = m.size + 1 := by
    simp only [size, List.length_cons]
    omega
  rw [after_eq, hadmit, Except.ok_bind]
  change m.effect env _ >>= _ = _ ↔ _
  rw [heffect, Except.ok_bind, limited_eq_ok, hsize, Nat.succ_le_iff]

lemma after_own {b : Builtin} (hkeeps : env.table.Keeps op) (hb : Builtin.ofOpcode? op = some b)
    (hop : Opcode.op16 < op) (hver : ¬ (op = Opcode.verIf ∨ op = Opcode.verNotIf))
    (hm : m.executing = true) (hops : m.opCount < maxOps) :
    m.after env ⟨op, none, offset⟩ =
      (Machine.runBuiltin { m with opCount := m.opCount + 1 } env (env.table.name op) offset
        b).quiet >>= limited := by
  obtain ⟨hdisabled, hhandler⟩ := hkeeps
  have hrefusal : env.refusal? op = none := by
    unfold Env.refusal?
    rw [hdisabled, if_neg Bool.false_ne_true, if_neg hver]
  have hadmit : Instruction.admit ⟨op, none, offset⟩ env m.opCount = .ok (m.opCount + 1) := by
    unfold Instruction.admit
    simp only [hop, if_true, hrefusal]
    rw [if_neg (by omega)]
  have hskips : Machine.skips { m with opCount := m.opCount + 1 } op = false := by
    have hexec : Machine.executing { m with opCount := m.opCount + 1 } = true := hm
    unfold skips
    rw [hexec]
    rfl
  rw [after_eq, hadmit, Except.ok_bind]
  unfold effect perform
  simp only [hskips, hhandler, hb, Bool.false_eq_true, if_false]

lemma after_hash160 (hkeeps : env.table.Keeps Opcode.hash160) (hm : m.executing = true)
    (hops : m.opCount < maxOps) : m.after env ⟨Opcode.hash160, none, offset⟩ = .ok m' ↔
      ∃ a below, m.stack = a :: below ∧ m.size ≤ maxStackSize ∧
        m' = { m with stack := hash160 a :: below, opCount := m.opCount + 1 } := by
  rw [after_own hkeeps (b := .digest .hash160) rfl (by decide) (by decide) hm hops]
  rcases m with ⟨stack, altstack, conditions, opCount, codeStart⟩
  cases stack with
  | nil => simp [runBuiltin, onStack, DigestOp.effect, Effect.one, Effect.missing, Outcome.quiet]
  | cons a below =>
    change limited ⟨hash160 a :: below, altstack, conditions, opCount + 1, codeStart⟩ = _ ↔ _
    rw [limited_eq_ok]
    constructor
    · rintro ⟨hsize, rfl⟩
      exact ⟨a, below, rfl, hsize, rfl⟩
    · rintro ⟨_, _, hstack, hsize, rfl⟩
      cases hstack
      exact ⟨hsize, rfl⟩

lemma after_equal (hkeeps : env.table.Keeps Opcode.equal) (hm : m.executing = true)
    (hops : m.opCount < maxOps) : m.after env ⟨Opcode.equal, none, offset⟩ = .ok m' ↔
      ∃ a b below, m.stack = a :: b :: below ∧ m.size ≤ maxStackSize + 1 ∧
        m' = { m with stack := Number.ofBool (b == a) :: below, opCount := m.opCount + 1 } := by
  rw [after_own hkeeps (b := .equal false) rfl (by decide) (by decide) hm hops]
  rcases m with ⟨stack, altstack, conditions, opCount, codeStart⟩
  match stack with
  | [] => simp [runBuiltin, onStack, Effect.equal, Effect.two, Effect.missing, Outcome.quiet]
  | [a] => simp [runBuiltin, onStack, Effect.equal, Effect.two, Effect.missing, Outcome.quiet]
  | a :: b :: below =>
    change limited ⟨Number.ofBool (b == a) :: below, altstack, conditions, opCount + 1,
      codeStart⟩ = _ ↔ _
    -- two items become one, so the limit is met if it was exceeded by no more than one
    have hsize : size ⟨a :: b :: below, altstack, conditions, opCount, codeStart⟩ =
        size ⟨Number.ofBool (b == a) :: below, altstack, conditions, opCount + 1, codeStart⟩ +
          1 := by
      simp only [size, List.length_cons]
      omega
    rw [limited_eq_ok, hsize, Nat.add_le_add_iff_right]
    constructor
    · rintro ⟨hle, rfl⟩
      exact ⟨a, b, below, rfl, hle, rfl⟩
    · rintro ⟨_, _, _, hstack, hle, rfl⟩
      cases hstack
      exact ⟨hle, rfl⟩

/-- **The lock** replaces the top item by whether it has the hash, if there is room for the hash
while it runs. -/
lemma afterAll_scriptHash {stack : Stack} (hhash : env.table.Keeps Opcode.hash160)
    (hequal : env.table.Keeps Opcode.equal) (hdata : data.length ≤ maxItemSize) :
    Machine.afterAll { stack := stack } env [⟨Opcode.hash160, none, 0⟩, ⟨0x14, some data, 1⟩,
        ⟨Opcode.equal, none, 22⟩] = .ok m' ↔
      ∃ item below, stack = item :: below ∧ stack.length < maxStackSize ∧
        m' = { stack := Number.ofBool (hash160 item == data) :: below, opCount := 2 } := by
  have hops (n : Nat) (hn : n < 2) : n < maxOps := Nat.lt_of_lt_of_le hn (by decide)
  simp only [afterAll_cons, afterAll_nil, Except.bind_eq_ok]
  constructor
  · rintro ⟨m₁, h₁, m₂, h₂, m₃, h₃, hm⟩
    obtain ⟨item, below, hstack, -, rfl⟩ := (after_hash160 hhash rfl (hops 0 Nat.two_pos)).1 h₁
    obtain ⟨hroom, rfl⟩ := (after_push hdata rfl).1 h₂
    obtain ⟨x, y, rest, hstack', -, rfl⟩ :=
      (after_equal hequal rfl (hops 1 Nat.one_lt_two)).1 h₃
    cases hstack
    cases hstack'
    cases hm
    exact ⟨item, below, rfl, hroom, rfl⟩
  · rintro ⟨item, below, rfl, hroom, rfl⟩
    -- the push needs room for one more item on top of the hash
    have hsize : below.length + 1 < maxStackSize := hroom
    refine ⟨{ stack := hash160 item :: below, opCount := 1 }, ?_,
      { stack := data :: hash160 item :: below, opCount := 1 }, ?_, _, ?_, rfl⟩
    · exact (after_hash160 hhash rfl (hops 0 Nat.two_pos)).2
        ⟨item, below, rfl, Nat.le_of_lt hsize, rfl⟩
    · exact (after_push hdata rfl).2 ⟨hsize, rfl⟩
    · exact (after_equal hequal rfl (hops 1 Nat.one_lt_two)).2
        ⟨data, hash160 item, below, rfl, Nat.succ_le_succ (Nat.le_of_lt hsize), rfl⟩

end Machine

namespace Attempt

variable {a : Attempt}

lemma topIsTrue_ofBool (v : Bool) (below : Stack) :
    Stack.topIsTrue (Number.ofBool v :: below) = v := by
  cases v <;> rfl

lemma lockingRun_scriptHash (hhash : a.table.Keeps Opcode.hash160)
    (hequal : a.table.Keeps Opcode.equal) (hlock : a.locking.isPayToScriptHash = true) :
    (a.lockingRun.fault? = none ∧ a.lockingRun.machine.stack.topIsTrue = true) ↔
      ∃ redeem below, a.left = redeem :: below ∧ a.left.length < maxStackSize ∧
        hash160 redeem = a.locking.embeddedHash := by
  obtain ⟨hlen, -⟩ := Script.bytes_of_isPayToScriptHash hlock
  have hdata : a.locking.embeddedHash.length ≤ maxItemSize := by
    rw [hlen]
    decide
  have hhash' : (Env.mk a.table a.spend.setting .locking a.locking).table.Keeps Opcode.hash160 :=
    hhash
  unfold lockingRun
  rw [runScript_ok (Script.instructions_of_isPayToScriptHash hlock), Machine.run_fault?_eq_none]
  constructor
  · rintro ⟨⟨m, hall, -⟩, htop⟩
    rw [Machine.run_machine hall] at htop
    obtain ⟨redeem, below, hleft, hroom, rfl⟩ :=
      (Machine.afterAll_scriptHash hhash' hequal hdata).1 hall
    rw [topIsTrue_ofBool, beq_iff_eq] at htop
    exact ⟨redeem, below, hleft, hroom, htop⟩
  · rintro ⟨redeem, below, hleft, hroom, hsame⟩
    have hall := (Machine.afterAll_scriptHash hhash' hequal hdata).2
      ⟨redeem, below, hleft, hroom, rfl⟩
    refine ⟨⟨_, hall, rfl⟩, ?_⟩
    rw [Machine.run_machine hall, topIsTrue_ofBool, beq_iff_eq]
    exact hsame

/-- **Undoing a script hash lock** is evaluating the redeem script. Where redeem scripts are run,
such a lock is undone exactly if the unlocking script has nothing but pushes, does well and leaves
some items, fewer than the stack may hold, of which the one on top has the hash in the lock; and if
that item does well as a script that runs from the others. -/
theorem valid_iff_redeem_runs (a : Attempt) (hhash : a.table.Keeps Opcode.hash160)
    (hequal : a.table.Keeps Opcode.equal) (hlock : a.locking.isPayToScriptHash = true)
    (hflag : a.spend.flags.has Flags.payToScriptHash = true) :
    ∃ h : Bytes, h.length = 20 ∧
      a.locking.bytes = Opcode.hash160 :: 0x14 :: (h ++ [Opcode.equal]) ∧
      (a.execution.valid = true ↔
        a.unlocking.isPushOnly = true ∧ a.unlockingRun.fault? = none ∧
          ∃ redeem base, a.left = redeem :: base ∧ a.left.length ≤ 999 ∧ hash160 redeem = h ∧
            (runScript ⟨a.table, a.spend.setting, .redeem, ⟨redeem⟩⟩ base).fault? = none ∧
            (runScript ⟨a.table, a.spend.setting, .redeem, ⟨redeem⟩⟩
              base).machine.stack.topIsTrue = true) := by
  obtain ⟨hlen, hbytes⟩ := Script.bytes_of_isPayToScriptHash hlock
  have hredeems : a.redeems = true := by rw [redeems, hflag, hlock, Bool.and_self]
  have hroom (n : Nat) : n < maxStackSize ↔ n ≤ 999 := Nat.lt_succ_iff
  have hlocking := lockingRun_scriptHash hhash hequal hlock
  refine ⟨a.locking.embeddedHash, hlen, hbytes, ?_⟩
  rw [valid_iff, fault?_eq_none_iff, verifies_iff]
  constructor
  · rintro ⟨⟨hunlocking, hlocks⟩, hredeem⟩
    obtain ⟨hpush, -, hrun, htop⟩ := hredeem hredeems
    obtain ⟨redeem, base, hleft, hlt, hsame⟩ := hlocking.1 hlocks
    rw [redeemRun, hleft] at hrun htop
    exact ⟨hpush, hunlocking, redeem, base, hleft, (hroom _).1 hlt, hsame, hrun, htop⟩
  · rintro ⟨hpush, hunlocking, redeem, base, hleft, hle, hsame, hrun, htop⟩
    have hlocks := hlocking.2 ⟨redeem, base, hleft, (hroom _).2 hle, hsame⟩
    have hne : a.left ≠ [] := by
      rw [hleft]
      exact List.cons_ne_nil _ _
    -- the item on top is the script, and it is gone from what the redeem script starts on
    have hredeem : a.redeemRun = runScript ⟨a.table, a.spend.setting, .redeem, ⟨redeem⟩⟩ base := by
      rw [redeemRun, hleft]
      rfl
    refine ⟨⟨hunlocking, hlocks⟩, fun _ => ⟨hpush, hne, ?_⟩⟩
    rw [hredeem]
    exact ⟨hrun, htop⟩

lemma keeps_scriptHash : ∀ p ∈ [Profile.bitcoin, Profile.clams],
    p.opcodes.Keeps Opcode.hash160 ∧ p.opcodes.Keeps Opcode.equal := by
  decide

def askedForTwo : Attempt where
  table := Profile.bitcoin.opcodes
  unlocking := ⟨[0x52, 0x02, 0x52, 0x87]⟩
  locking := .payToScriptHash ⟨[0x52, 0x87]⟩
  spend := { tx := .new Standard.bitcoin, input := 0 }

theorem askedForTwo_valid :
    askedForTwo.table.Keeps Opcode.hash160 ∧ askedForTwo.table.Keeps Opcode.equal ∧
      askedForTwo.locking.isPayToScriptHash = true ∧
      askedForTwo.spend.flags.has Flags.payToScriptHash = true ∧
      askedForTwo.execution.valid = true := by
  obtain ⟨hhash, hequal⟩ := keeps_scriptHash Profile.bitcoin List.mem_cons_self
  have hlock : askedForTwo.locking.isPayToScriptHash = true := by decide +kernel
  have hflag : askedForTwo.spend.flags.has Flags.payToScriptHash = true := by decide
  refine ⟨hhash, hequal, hlock, hflag, ?_⟩
  obtain ⟨h, -, hbytes, hvalid⟩ := valid_iff_redeem_runs askedForTwo hhash hequal hlock hflag
  have hsame : hash160 [0x52, 0x87] = h := by
    have hlocking : askedForTwo.locking.bytes =
        Opcode.hash160 :: 0x14 :: (hash160 [0x52, 0x87] ++ [Opcode.equal]) := by decide +kernel
    rw [hlocking] at hbytes
    simpa using hbytes
  exact hvalid.2 ⟨rfl, rfl, [0x52, 0x87], [[2]], rfl, by decide, hsame, rfl, rfl⟩

end Attempt

end CoinScript
