import CoinScript.Proofs.Opcode.Handlers
import CoinScript.Proofs.Verification.Protocol

/-!
Rules in force only make verification stricter.

An instruction that succeeds while more rules are in force succeeds while fewer are, and leaves
the same machine behind: a time lock looks at the stack and never changes it, and the extra
item of a multiple signature check is taken off whether or not it must be empty. So the runs go
the same way, and a verification that is valid under more rules is valid under fewer. A function of
the host may do as it likes with the rules, so tables with one are left out.
-/

namespace CoinScript

variable {f g : Flags}

lemma Flags.has_of_subset (h : f &&& g = f) {rule : Flags} (hf : f.has rule = true) :
    g.has rule = true := by
  unfold Flags.has at hf ⊢
  rw [bne_iff_ne] at hf ⊢
  intro hg
  refine hf ?_
  rw [← h, UInt32.and_assoc, hg, UInt32.and_zero]

/-! ### A setting with other rules -/

def Setting.under (s : Setting) (flags : Flags) : Setting := { s with flags := flags }

def Env.under (env : Env) (flags : Flags) : Env :=
  { env with setting := env.setting.under flags }

/-! ### Instructions -/

def NamedHandler.rule? : NamedHandler → Option Flags
  | .checkLockTime => some Flags.checkLockTime
  | .checkSequence => some Flags.checkSequence
  | .nop => none

lemma NamedHandler.run_off (handler : NamedHandler) {s : Setting} {name : String} {stack : Stack}
    (h : handler.rule?.any s.flags.has = false) : ∃ log, handler.run s name stack = .ok log := by
  cases handler with
  | nop => exact ⟨_, rfl⟩
  | checkLockTime =>
    have hoff : s.flags.has Flags.checkLockTime = false := h
    refine ⟨s!"{name}: not enforced, treated as NOP", ?_⟩
    unfold NamedHandler.run TimeLock.checkLockTime
    rw [hoff]
    rfl
  | checkSequence =>
    have hoff : s.flags.has Flags.checkSequence = false := h
    refine ⟨s!"{name}: not enforced, treated as NOP", ?_⟩
    unfold NamedHandler.run TimeLock.checkSequence
    rw [hoff]
    rfl

lemma NamedHandler.run_congr (handler : NamedHandler) {s : Setting} {name : String} {stack : Stack}
    (h : handler.rule?.any f.has = handler.rule?.any g.has) :
    handler.run (s.under f) name stack = handler.run (s.under g) name stack := by
  cases handler with
  | nop => rfl
  | checkLockTime =>
    have hrule : f.has Flags.checkLockTime = g.has Flags.checkLockTime := h
    simp only [NamedHandler.run, TimeLock.checkLockTime, Setting.under, hrule]
    rfl
  | checkSequence =>
    have hrule : f.has Flags.checkSequence = g.has Flags.checkSequence := h
    simp only [NamedHandler.run, TimeLock.checkSequence, Setting.under, hrule]
    rfl

lemma NamedHandler.run_under (h : f &&& g = f) (handler : NamedHandler) {s : Setting}
    {name : String} {stack : Stack} {log : String}
    (hg : handler.run (s.under g) name stack = .ok log) :
    ∃ log', handler.run (s.under f) name stack = .ok log' := by
  cases hf : handler.rule?.any f.has with
  | false => exact handler.run_off hf
  | true =>
    have hboth : handler.rule?.any g.has = true := by
      rw [Option.any_eq_true] at hf ⊢
      obtain ⟨rule, hrule, hon⟩ := hf
      exact ⟨rule, hrule, Flags.has_of_subset h hon⟩
    exact ⟨log, by rw [handler.run_congr (hf.trans hboth.symm), hg]⟩

lemma Effect.checkMultisig_under (h : f &&& g = f) {s : Setting} {code : Script} {name : String}
    {verify : Bool} {keyCount : Nat} {stack left : Stack} {log : String}
    (hg : Effect.checkMultisig (s.under g) code name verify keyCount stack = (.ok log, left)) :
    Effect.checkMultisig (s.under f) code name verify keyCount stack = (.ok log, left) := by
  unfold Effect.checkMultisig at hg ⊢
  cases hops : MultisigOperands.take name keyCount stack.tail with
  | error e => simp [hops] at hg
  | ok ops =>
    have hsame : Effect.multisigValid (s.under f) code name ops =
        Effect.multisigValid (s.under g) code name ops := rfl
    cases hvalid : Effect.multisigValid (s.under g) code name ops with
    | error e => simp [hops, hvalid] at hg
    | ok valid =>
      simp only [hops, hvalid] at hg
      simp only [hsame, hvalid]
      split at hg
      · cases hg
      · rename_i hdummy
        rw [if_neg]
        · exact hg
        · -- a dummy that `f` refuses would have been refused by `g`
          intro hf
          rw [Bool.and_eq_true] at hf hdummy
          exact hdummy ⟨Flags.has_of_subset h hf.1, hf.2⟩

namespace Machine

variable {m m' : Machine} {env : Env} {log : String}

lemma checkMultisig_under (h : f &&& g = f) {name : String} {verify : Bool}
    (hg : m.checkMultisig (env.under g) name verify = (.ok log, m')) :
    m.checkMultisig (env.under f) name verify = (.ok log, m') := by
  unfold checkMultisig at hg ⊢
  cases hs : m.stack with
  | nil => simp [hs] at hg
  | cons count rest =>
    cases hc : Signature.count? count maxKeys with
    | none => simp [hs, hc] at hg
    | some keyCount =>
      cases hm : m.countOps keyCount with
      | error e => simp [hs, hc, hm] at hg
      | ok m₁ =>
        simp only [hs, hc, hm] at hg
        simp only [hc, hm]
        obtain ⟨left, he, rfl⟩ := onStack_eq_ok.1 hg
        exact onStack_eq_ok.2 ⟨left, Effect.checkMultisig_under h he, rfl⟩

lemma runBuiltin_under (h : f &&& g = f) {name : String} {offset : Nat} {b : Builtin}
    (hg : m.runBuiltin (env.under g) name offset b = (.ok log, m')) :
    m.runBuiltin (env.under f) name offset b = (.ok log, m') := by
  cases b with
  | checkMultisig verify => exact checkMultisig_under h hg
  | _ => exact hg

lemma runHandler_under (h : f &&& g = f) {op : Opcode} {handler : NamedHandler}
    (hg : m.runHandler (env.under g) op handler = (.ok log, m')) :
    ∃ log', m.runHandler (env.under f) op handler = (.ok log', m') := by
  obtain ⟨hrun, rfl⟩ := runHandler_named_eq_ok.1 hg
  obtain ⟨log', hrun'⟩ := handler.run_under h hrun
  exact ⟨log', runHandler_named_eq_ok.2 ⟨hrun', rfl⟩⟩

lemma runOpcode_under (ht : env.table.Registered) (h : f &&& g = f) {op : Opcode} {offset : Nat}
    (hg : m.runOpcode (env.under g) op offset = (.ok log, m')) :
    ∃ log', m.runOpcode (env.under f) op offset = (.ok log', m') := by
  obtain ⟨hdisabled, hif, hnotif, hskip | ⟨hskip, hruns⟩⟩ := runOpcode_eq_ok.1 hg
  · exact ⟨log, runOpcode_eq_ok.2 ⟨hdisabled, hif, hnotif, .inl hskip⟩⟩
  · rcases hruns with ⟨handler, hh, hrun⟩ | ⟨hh, b, hb, hrun⟩
    · obtain ⟨n, rfl⟩ := ht op handler hh
      obtain ⟨log', hrun'⟩ := runHandler_under h hrun
      exact ⟨log', runOpcode_eq_ok.2
        ⟨hdisabled, hif, hnotif, .inr ⟨hskip, .inl ⟨_, hh, hrun'⟩⟩⟩⟩
    · have hrun' := runBuiltin_under h hrun
      exact ⟨log, runOpcode_eq_ok.2
        ⟨hdisabled, hif, hnotif, .inr ⟨hskip, .inr ⟨hh, b, hb, hrun'⟩⟩⟩⟩

/-- **What succeeds under more rules succeeds under fewer**, with the same effect. -/
theorem under_follows (h : f &&& g = f) {env : Env} (ht : env.table.Registered) :
    (env.under f).Follows (env.under g) := by
  intro m i log m' hg
  obtain ⟨he, hsize⟩ := executeChecked_eq_ok.1 hg
  rcases execute_eq_ok.1 he with ⟨data, hd, hpush⟩ | ⟨hd, counted, hc, hop⟩
  · exact ⟨log, executeChecked_eq_ok.2 ⟨execute_eq_ok.2 (.inl ⟨data, hd, hpush⟩), hsize⟩⟩
  · obtain ⟨log', hop'⟩ := runOpcode_under ht h hop
    exact ⟨log', executeChecked_eq_ok.2 ⟨execute_eq_ok.2 (.inr ⟨hd, counted, hc, hop'⟩), hsize⟩⟩

end Machine

/-! ### Verifications -/

lemma runScript_under (h : f &&& g = f) (env : Env) (ht : env.table.Registered) {stack : Stack}
    (ok : (runScript (env.under g) stack).fault? = none) :
    (runScript (env.under f) stack).Alike (runScript (env.under g) stack) := by
  cases hi : env.script.instructions with
  | error e =>
    have hg : runScript (env.under g) stack = _ := runScript_error hi
    rw [hg] at ok
    cases ok
  | ok is =>
    have hf : runScript (env.under f) stack = _ := runScript_ok hi
    have hg : runScript (env.under g) stack = _ := runScript_ok hi
    rw [hg] at ok ⊢
    rw [hf]
    exact Machine.run_alike (Machine.under_follows h ht) rfl ok

/-- The steps of the unlocking and the locking script. -/
def Execution.outerSteps (x : Execution) : List Step := x.steps.filter (·.phase ≠ .redeem)

namespace Attempt

variable {a : Attempt}

def under (a : Attempt) (flags : Flags) : Attempt :=
  { a with spend := { a.spend with flags := flags } }

lemma redeems_under (h : f &&& g = f) (hf : (a.under f).redeems = true) :
    (a.under g).redeems = true := by
  unfold redeems at hf ⊢
  rw [Bool.and_eq_true] at hf ⊢
  exact ⟨Flags.has_of_subset h hf.1, hf.2⟩

section Registered

variable (ht : a.table.Registered) (h : f &&& g = f)
include ht h

lemma unlockingRun_under (ok : (a.under g).unlockingRun.fault? = none) :
    (a.under f).unlockingRun.Alike (a.under g).unlockingRun :=
  runScript_under h ⟨a.table, a.spend.setting, .unlocking, a.unlocking⟩ ht ok

lemma left_under (ok : (a.under g).unlockingRun.fault? = none) :
    (a.under f).left = (a.under g).left :=
  congrArg Machine.stack (unlockingRun_under ht h ok).machine

lemma lockingRun_under (ok : (a.under g).unlockingRun.fault? = none)
    (ok' : (a.under g).lockingRun.fault? = none) :
    (a.under f).lockingRun.Alike (a.under g).lockingRun := by
  unfold lockingRun at ok' ⊢
  rw [left_under ht h ok]
  exact runScript_under h ⟨a.table, a.spend.setting, .locking, a.locking⟩ ht ok'

lemma redeemRun_under (ok : (a.under g).unlockingRun.fault? = none)
    (ok' : (a.under g).redeemRun.fault? = none) :
    (a.under f).redeemRun.Alike (a.under g).redeemRun := by
  unfold redeemRun at ok' ⊢
  rw [left_under ht h ok]
  exact runScript_under h
    ⟨a.table, a.spend.setting, .redeem, ⟨(a.under g).left.headD []⟩⟩ ht ok'

lemma fault?_under (hg : (a.under g).execution.fault? = none) :
    (a.under f).execution.fault? = none := by
  obtain ⟨hv, hredeem⟩ := fault?_eq_none_iff.1 hg
  obtain ⟨ok, ok', htop⟩ := verifies_iff.1 hv
  have first := unlockingRun_under ht h ok
  have second := lockingRun_under ht h ok ok'
  refine fault?_eq_none_iff.2 ⟨verifies_iff.2 ⟨?_, ?_, ?_⟩, fun hf => ?_⟩
  · rw [first.fault, ok]
  · rw [second.fault, ok']
  · rw [second.machine, htop]
  · obtain ⟨hpush, hleft, ok'', htop'⟩ := hredeem (redeems_under h hf)
    have third := redeemRun_under ht h ok ok''
    refine ⟨hpush, ?_, ?_, ?_⟩
    · rwa [left_under ht h ok]
    · rw [third.fault, ok'']
    · rw [third.machine, htop']

end Registered

lemma outerSteps_eq (h : a.execution.fault? = none) :
    a.execution.outerSteps = a.unlockingRun.steps ++ a.lockingRun.steps := by
  have outer : (a.unlockingRun.steps ++ a.lockingRun.steps).filter (·.phase ≠ .redeem) =
      a.unlockingRun.steps ++ a.lockingRun.steps := by
    refine List.filter_eq_self.2 fun s hs => decide_eq_true ?_
    rcases List.mem_append.1 hs with hs | hs
    · rw [runScript_phase _ _ s hs]
      nofun
    · rw [runScript_phase _ _ s hs]
      nofun
  have inner : a.redeemRun.steps.filter (·.phase ≠ .redeem) = [] := by
    refine List.filter_eq_nil_iff.2 fun s hs => ?_
    rw [runScript_phase _ _ s hs]
    simp
  rw [Execution.outerSteps, steps_eq h, List.filter_append, outer]
  cases a.redeems with
  | false => simp
  | true => rw [if_pos rfl, inner, List.append_nil]

/-- **Rules are soft forks**, where all handlers are ones that a configuration can name. What is
valid under some rules is valid under any of them alone, and the steps of the unlocking and the
locking script are the same but for their log lines. -/
theorem valid_under (ht : a.table.Registered) (h : f &&& g = f)
    (hg : (a.under g).execution.valid = true) :
    (a.under f).execution.valid = true ∧
      (a.under f).execution.outerSteps.map Step.quiet =
        (a.under g).execution.outerSteps.map Step.quiet := by
  have ok := valid_iff.1 hg
  have ok' := fault?_under ht h ok
  obtain ⟨first, second, -⟩ := verifies_iff.1 (fault?_eq_none_iff.1 ok).1
  refine ⟨valid_iff.2 ok', ?_⟩
  rw [outerSteps_eq ok', outerSteps_eq ok, List.map_append, List.map_append,
    (unlockingRun_under ht h first).steps, (lockingRun_under ht h first second).steps]

/-- An output that is locked until height 1 and asks for no signature of no keys. -/
def lockedUntil : Attempt where
  table := OpcodeTable.timeLocked
  unlocking := ⟨[0x00]⟩
  locking := ⟨[0x51, 0xb1, 0x75, 0x00, 0x00, 0xae]⟩
  spend :=
    { tx := ⟨.mk Standard.bitcoin .transaction
        [some (.int 1),
          some (.records [.mk Standard.bitcoin .txIn
            [some (.record (.new Standard.bitcoin .outPoint)), some (.script ⟨[]⟩),
              some (.uint 0)]]),
          some (.records []), some (.uint 5)]⟩
      input := 0 }

theorem lockedUntil_valid :
    Flags.nullDummy &&& Flags.standard = Flags.nullDummy ∧
      (lockedUntil.under Flags.standard).execution.valid = true ∧
      (lockedUntil.under Flags.nullDummy).execution.valid = true ∧
      (lockedUntil.under Flags.nullDummy).execution.outerSteps.map Step.quiet =
        (lockedUntil.under Flags.standard).execution.outerSteps.map Step.quiet := by
  have h : Flags.nullDummy &&& Flags.standard = Flags.nullDummy := by decide
  have hg : (lockedUntil.under Flags.standard).execution.valid = true := by decide +kernel
  exact ⟨h, hg, valid_under OpcodeTable.registered_timeLocked h hg⟩

end Attempt

end CoinScript
