import CoinScript.Proofs.Except
import CoinScript.Proofs.Opcode.Handlers
import CoinScript.Proofs.Verification.Protocol

/-!
A spend stays valid while the chain grows.

Unless the host brings functions of its own, the chain is looked at in one place only: a lock time
that is enforced asks whether the height or the time that it is measured in has been reached.
Reached once, it stays reached, and where nothing is known of the chain nothing is asked. So every
run that ends well does so again, step by step and with the same log lines.
-/

namespace CoinScript

/-- What is known of the chain, if anything, is not before some state of it. -/
def ChainState.Grows (now : ChainState) (later? : Option ChainState) : Prop :=
  ∀ later ∈ later?, now.height ≤ later.height ∧ now.time ≤ later.time

def Setting.seeing (s : Setting) (chain? : Option ChainState) : Setting :=
  { s with chain? := chain? }

def Env.seeing (env : Env) (chain? : Option ChainState) : Env :=
  { env with setting := env.setting.seeing chain? }

variable {now : ChainState} {later? : Option ChainState}

/-! ### Computations that end well again -/

/-- The second computation ends as the first does, if that ends well. -/
def Recurs {α : Type} (x y : Except Fault α) : Prop := ∀ a, x = .ok a → y = .ok a

namespace Recurs

variable {α β : Type}

lemma refl (x : Except Fault α) : Recurs x x := fun _ h => h

lemma bind (x : Except Fault α) {f g : α → Except Fault β} (h : ∀ a, Recurs (f a) (g a)) :
    Recurs (x >>= f) (x >>= g) := by
  intro b hb
  obtain ⟨a, ha, hf⟩ := Except.bind_eq_ok.1 hb
  exact Except.bind_eq_ok.2 ⟨a, ha, h a b hf⟩

lemma check {c : Prop} [Decidable c] {e e' : Fault} {f g : Unit → Except Fault α}
    (h : ∀ u, Recurs (f u) (g u)) :
    Recurs (if c then throw e >>= f else f ()) (if c then throw e' >>= g else g ()) := by
  split
  · nofun
  · exact h ()

end Recurs

/-! ### Lock times -/

namespace TimeLock

lemma requireReached_grows (h : now.Grows later?) (lockTime : Nat) :
    Recurs (requireReached lockTime (some now)) (requireReached lockTime later?) := by
  intro _ ok
  cases later? with
  | none => rfl
  | some later =>
    obtain ⟨hheight, htime⟩ := h later rfl
    have hreached : reached now lockTime ≤ reached later lockTime := by
      unfold reached
      split
      · exact hheight
      · exact htime
    have hnow : lockTime ≤ reached now lockTime := by
      by_contra hlt
      simp [requireReached, Nat.not_le.1 hlt] at ok
    exact if_neg (Nat.not_lt.2 (Nat.le_trans hnow hreached))

lemma checkLockTime_grows (h : now.Grows later?) (s : Setting) (name : String)
    (stack : List Bytes) : Recurs (checkLockTime (s.seeing (some now)) name stack)
      (checkLockTime (s.seeing later?) name stack) := by
  unfold checkLockTime
  change Recurs (if !s.flags.has Flags.checkLockTime then _ else _)
    (if !s.flags.has Flags.checkLockTime then _ else _)
  split
  · exact .refl _
  refine Recurs.bind _ fun n => Recurs.bind (s.transaction name) fun tx => ?_
  refine Recurs.check fun _ => Recurs.check fun _ => ?_
  refine Recurs.bind (tx.inputSequence s.input) fun seq => Recurs.check fun _ => ?_
  intro log hlog
  obtain ⟨_, hreached, hreply⟩ := Except.bind_eq_ok.1 hlog
  exact Except.bind_eq_ok.2 ⟨_, requireReached_grows h tx.lockTime _ hreached, hreply⟩

end TimeLock

lemma NamedHandler.run_grows (h : now.Grows later?) (handler : NamedHandler) (s : Setting)
    (name : String) (stack : Stack) : Recurs (handler.run (s.seeing (some now)) name stack)
      (handler.run (s.seeing later?) name stack) := by
  cases handler with
  | checkLockTime => exact TimeLock.checkLockTime_grows h s name stack
  | checkSequence => exact .refl _
  | nop => exact .refl _

/-! ### Runs -/

/-- Whatever instruction succeeds in `env` does the same in `env'`, with the same log line. -/
def Env.Repeats (env' env : Env) : Prop :=
  ∀ (m : Machine) (i : Instruction) (log : String) (m' : Machine),
    m.executeChecked env i = (.ok log, m') → m.executeChecked env' i = (.ok log, m')

namespace Machine

variable {env env' : Env} {is : List Instruction} {m m' : Machine} {log : String}

lemma run_repeats (h : env'.Repeats env) (hphase : env'.phase = env.phase)
    (ok : (run env is m).fault? = none) : run env' is m = run env is m := by
  induction is generalizing m with
  | nil => rfl
  | cons i is ih =>
    cases hi : m.executeChecked env i with
    | mk reply m' =>
      cases reply with
      | error e =>
        rw [run_cons_error hi] at ok
        cases ok
      | ok log =>
        rw [run_cons_ok hi] at ok ⊢
        rw [run_cons_ok (h m i log m' hi), ih ok]
        unfold stepAfter
        rw [hphase]

lemma runBuiltin_seeing (chain? : Option ChainState) (name : String) (offset : Nat) (b : Builtin) :
    m.runBuiltin (env.seeing chain?) name offset b = m.runBuiltin env name offset b := by
  cases b <;> rfl

lemma runs_grows (ht : env.table.Registered) (h : now.Grows later?) {op : Opcode} {offset : Nat}
    (hr : m.runs (env.seeing (some now)) op offset log m') :
    m.runs (env.seeing later?) op offset log m' := by
  rcases hr with ⟨handler, hh, hrun⟩ | ⟨hh, b, hb, hrun⟩
  · obtain ⟨n, rfl⟩ := ht op handler hh
    obtain ⟨hlog, rfl⟩ := runHandler_named_eq_ok.1 hrun
    exact .inl ⟨n, hh, runHandler_named_eq_ok.2 ⟨n.run_grows h _ _ _ _ hlog, rfl⟩⟩
  · rw [runBuiltin_seeing] at hrun
    exact .inr ⟨hh, b, hb, (runBuiltin_seeing _ _ _ _).trans hrun⟩

lemma seeing_repeats (h : now.Grows later?) (ht : env.table.Registered) :
    (env.seeing later?).Repeats (env.seeing (some now)) := by
  intro m i log m' hnow
  obtain ⟨he, hsize⟩ := executeChecked_eq_ok.1 hnow
  refine executeChecked_eq_ok.2 ⟨execute_eq_ok.2 ?_, hsize⟩
  rcases execute_eq_ok.1 he with hpush | ⟨hd, counted, hc, hop⟩
  · exact .inl hpush
  · obtain ⟨hdisabled, hif, hnotif, hskip | ⟨hskip, hruns⟩⟩ := runOpcode_eq_ok.1 hop
    · exact .inr ⟨hd, counted, hc, runOpcode_eq_ok.2 ⟨hdisabled, hif, hnotif, .inl hskip⟩⟩
    · exact .inr ⟨hd, counted, hc, runOpcode_eq_ok.2
        ⟨hdisabled, hif, hnotif, .inr ⟨hskip, runs_grows ht h hruns⟩⟩⟩

end Machine

/-! ### Verifications -/

lemma runScript_grows (h : now.Grows later?) (env : Env) (ht : env.table.Registered) {stack : Stack}
    (ok : (runScript (env.seeing (some now)) stack).fault? = none) :
    runScript (env.seeing later?) stack = runScript (env.seeing (some now)) stack := by
  cases hi : env.script.instructions with
  | error e =>
    have hnow : runScript (env.seeing (some now)) stack = _ := runScript_error hi
    rw [hnow] at ok
    cases ok
  | ok is =>
    have hlater : runScript (env.seeing later?) stack = _ := runScript_ok hi
    have hnow : runScript (env.seeing (some now)) stack = _ := runScript_ok hi
    rw [hnow] at ok ⊢
    rw [hlater]
    exact Machine.run_repeats (Machine.seeing_repeats h ht) rfl ok

namespace Attempt

variable {a : Attempt}

def seeing (a : Attempt) (chain? : Option ChainState) : Attempt :=
  { a with spend := { a.spend with chain? := chain? } }

section Registered

variable (ht : a.table.Registered) (h : now.Grows later?)
include ht h

lemma unlockingRun_grows (ok : (a.seeing (some now)).unlockingRun.fault? = none) :
    (a.seeing later?).unlockingRun = (a.seeing (some now)).unlockingRun :=
  runScript_grows h ⟨a.table, a.spend.setting, .unlocking, a.unlocking⟩ ht ok

lemma left_grows (ok : (a.seeing (some now)).unlockingRun.fault? = none) :
    (a.seeing later?).left = (a.seeing (some now)).left :=
  congrArg (·.machine.stack) (unlockingRun_grows ht h ok)

lemma lockingRun_grows (ok : (a.seeing (some now)).unlockingRun.fault? = none)
    (ok' : (a.seeing (some now)).lockingRun.fault? = none) :
    (a.seeing later?).lockingRun = (a.seeing (some now)).lockingRun := by
  unfold lockingRun at ok' ⊢
  rw [left_grows ht h ok]
  exact runScript_grows h ⟨a.table, a.spend.setting, .locking, a.locking⟩ ht ok'

lemma redeemRun_grows (ok : (a.seeing (some now)).unlockingRun.fault? = none)
    (ok' : (a.seeing (some now)).redeemRun.fault? = none) :
    (a.seeing later?).redeemRun = (a.seeing (some now)).redeemRun := by
  unfold redeemRun at ok' ⊢
  rw [left_grows ht h ok]
  exact runScript_grows h
    ⟨a.table, a.spend.setting, .redeem, ⟨(a.seeing (some now)).left.headD []⟩⟩ ht ok'

lemma redeemStages_grows (ok : (a.seeing (some now)).unlockingRun.fault? = none)
    (ok' : (a.seeing (some now)).redeemRun.fault? = none) :
    (a.seeing later?).redeemStages = (a.seeing (some now)).redeemStages := by
  have hunlocking : (a.seeing later?).unlocking = (a.seeing (some now)).unlocking := rfl
  unfold redeemStages
  rw [hunlocking, left_grows ht h ok, redeemRun_grows ht h ok ok']

lemma stages_grows (ok : (a.seeing (some now)).execution.fault? = none) :
    (a.seeing later?).stages = (a.seeing (some now)).stages := by
  obtain ⟨hv, hredeem⟩ := fault?_eq_none_iff.1 ok
  obtain ⟨first, second, -⟩ := verifies_iff.1 hv
  have hasks : (a.seeing later?).redeems = (a.seeing (some now)).redeems := rfl
  unfold stages lockingStages
  rw [unlockingRun_grows ht h first, lockingRun_grows ht h first second, hasks]
  cases hr : (a.seeing (some now)).redeems with
  | false => rw [if_neg Bool.false_ne_true, if_neg Bool.false_ne_true]
  | true =>
    obtain ⟨-, -, third, -⟩ := hredeem hr
    rw [redeemStages_grows ht h first third]

lemma execution_grows (ok : (a.seeing (some now)).execution.fault? = none) :
    (a.seeing later?).execution = (a.seeing (some now)).execution := by
  obtain ⟨first, second, -⟩ := verifies_iff.1 (fault?_eq_none_iff.1 ok).1
  have hverifies : (a.seeing later?).verifies = (a.seeing (some now)).verifies := by
    unfold verifies
    rw [unlockingRun_grows ht h first, lockingRun_grows ht h first second]
  rw [execution_eq, execution_eq, stages_grows ht h ok, hverifies]

end Registered

/-- **The growth of the chain never makes a spend invalid**, where all handlers are ones that a
configuration can name. What is valid at a height and a time is valid, with the same steps, where
nothing is known of the chain and at every height and time that are no less. -/
theorem valid_seeing_later (ht : a.table.Registered)
    (hv : (a.seeing (some now)).execution.valid = true) :
    ((a.seeing none).execution.valid = true ∧
      (a.seeing none).execution.steps = (a.seeing (some now)).execution.steps) ∧
    ∀ later : ChainState, now.height ≤ later.height → now.time ≤ later.time →
      (a.seeing (some later)).execution.valid = true ∧
        (a.seeing (some later)).execution.steps = (a.seeing (some now)).execution.steps := by
  have ok := valid_iff.1 hv
  have same (later? : Option ChainState) (h : now.Grows later?) :
      (a.seeing later?).execution.valid = true ∧
        (a.seeing later?).execution.steps = (a.seeing (some now)).execution.steps := by
    rw [execution_grows ht h ok]
    exact ⟨hv, rfl⟩
  refine ⟨same none nofun, fun later hheight htime => same (some later) ?_⟩
  intro c hc
  cases hc
  exact ⟨hheight, htime⟩

/-- An output locked until height 5, spent by a transaction that is locked until height 7. -/
def lockedByHeight : Attempt where
  table := OpcodeTable.timeLocked
  unlocking := ⟨[0x51]⟩
  locking := ⟨[0x55, 0xb1, 0x75]⟩
  spend :=
    { tx := ⟨.mk Standard.bitcoin .transaction
        [some (.int 1),
          some (.records [.mk Standard.bitcoin .txIn
            [some (.record (.new Standard.bitcoin .outPoint)), some (.script ⟨[]⟩),
              some (.uint 0)]]),
          some (.records []), some (.uint 7)]⟩
      input := 0 }

/-- At height 6 the spend is not valid yet, at height 7 it is, and at height 9 it still is. -/
theorem lockedByHeight_valid :
    (lockedByHeight.seeing (some ⟨6, 0⟩)).execution.valid = false ∧
      (lockedByHeight.seeing (some ⟨7, 0⟩)).execution.valid = true ∧
      (lockedByHeight.seeing (some ⟨9, 3⟩)).execution.valid = true ∧
      (lockedByHeight.seeing (some ⟨9, 3⟩)).execution.steps =
        (lockedByHeight.seeing (some ⟨7, 0⟩)).execution.steps := by
  have early : (lockedByHeight.seeing (some ⟨6, 0⟩)).execution.valid = false := by decide +kernel
  have due : (lockedByHeight.seeing (some ⟨7, 0⟩)).execution.valid = true := by decide +kernel
  have hlater := (valid_seeing_later OpcodeTable.registered_timeLocked due).2 ⟨9, 3⟩
  exact ⟨early, due, hlater (by decide) (by decide)⟩

end Attempt

end CoinScript
