import CoinScript.Proofs.Except
import CoinScript.Proofs.Machine.Builtin
import CoinScript.Proofs.Machine.Run
import CoinScript.Proofs.Opcode.Handlers
import CoinScript.Stepper

/-!
Runs keep to the items they need.

An instruction that succeeds does so with more items below the others as well, and leaves these
where they are. Only the opcode that pushes the number of items can tell the difference, and the
limit on their number. So a run that stays clear of both goes the same way above more items.
-/

namespace CoinScript

variable {base : Stack}

/-! ### Effects on the stack -/

/-- Whether an effect that succeeds does so above more items too, and leaves them alone. -/
def Effect.Frames (e : Effect) : Prop :=
  ∀ (base s : Stack) (log : String) (left : Stack), e s = (.ok log, left) →
    e (s ++ base) = (.ok log, left ++ base)

namespace Effect

variable {name : String}

lemma frames_one (f : Bytes → Reply) : (one name f).Frames := by
  intro base s log left h
  rcases s with - | ⟨a, s⟩
  · cases h
  · simp only [one, Prod.mk.injEq] at h
    obtain ⟨hlog, rfl⟩ := h
    simp only [List.cons_append, one, hlog, List.append_assoc]

lemma frames_two (f : Bytes → Bytes → Reply) : (two name f).Frames := by
  intro base s log left h
  rcases s with - | ⟨a, - | ⟨b, s⟩⟩
  · cases h
  · cases h
  · simp only [two, Prod.mk.injEq] at h
    obtain ⟨hlog, rfl⟩ := h
    simp only [List.cons_append, two, hlog, List.append_assoc]

lemma frames_three (f : Bytes → Bytes → Bytes → Reply) : (three name f).Frames := by
  intro base s log left h
  rcases s with - | ⟨a, - | ⟨b, - | ⟨c, s⟩⟩⟩
  · cases h
  · cases h
  · cases h
  · simp only [three, Prod.mk.injEq] at h
    obtain ⟨hlog, rfl⟩ := h
    simp only [List.cons_append, three, hlog, List.append_assoc]

end Effect

lemma Shuffle.arrange?_append {op : Shuffle} {s left : Stack} (h : op.arrange? s = some left) :
    op.arrange? (s ++ base) = some (left ++ base) := by
  unfold arrange? at h
  split at h <;> cases h <;> rfl

lemma Shuffle.frames_effect (op : Shuffle) (name : String) : (op.effect name).Frames := by
  intro base s log left h
  unfold effect at h ⊢
  cases harrange : op.arrange? s with
  | none =>
    rw [harrange] at h
    cases h
  | some s' =>
    rw [harrange] at h
    cases h
    rw [arrange?_append harrange]

lemma Effect.frames_pick (name : String) (move : Bool) : (pick name move).Frames := by
  intro base s log left h
  rcases s with - | ⟨index, - | ⟨b, s⟩⟩
  · cases h
  · cases h
  · simp only [pick] at h
    simp only [List.cons_append, pick]
    cases hn : Number.decodeBounded? index with
    | none =>
      rw [hn] at h
      cases h
    | some n =>
      simp only [hn] at h ⊢
      by_cases hneg : n < 0
      · rw [if_pos hneg] at h
        cases h
      · rw [if_neg hneg] at h ⊢
        cases ha : (b :: s)[n.toNat]? with
        | none =>
          rw [ha] at h
          cases h
        | some a =>
          -- the item was found above, so more items below do not change its place
          have hlt : n.toNat < (b :: s).length := (List.getElem?_eq_some_iff.1 ha).1
          rw [ha] at h
          cases h
          rw [← List.cons_append, List.getElem?_append_left hlt, ha,
            List.eraseIdx_append_of_lt_length hlt]
          cases move <;> rfl

/-! ### Checks of several signatures -/

lemma MultisigOperands.take_append {name : String} {keyCount : Nat} {s : Stack}
    {ops : MultisigOperands} (h : take name keyCount s = .ok ops) :
    take name keyCount (s ++ base) = .ok { ops with below := ops.below ++ base } := by
  obtain ⟨count, rfl, hkeys, hcount⟩ := take_eq_ok.1 h
  exact take_eq_ok.2 ⟨count, by simp, hkeys, hcount⟩

lemma MultisigOperands.take_nil (name : String) (keyCount : Nat) :
    take name keyCount [] = .error (.missingOperands name (2 + keyCount)) := by
  unfold take
  rw [List.drop_nil]

lemma Effect.frames_checkMultisig (setting : Setting) (code : Script) (name : String)
    (verify : Bool) (keyCount : Nat) :
    (checkMultisig setting code name verify keyCount).Frames := by
  intro base s log left h
  unfold checkMultisig at h ⊢
  rcases s with - | ⟨count, s⟩
  · rw [List.tail_nil, MultisigOperands.take_nil] at h
    cases h
  · rw [List.tail_cons] at h
    rw [List.cons_append, List.tail_cons]
    cases hops : MultisigOperands.take name keyCount s with
    | error e =>
      rw [hops] at h
      cases h
    | ok ops =>
      have hvalid : multisigValid setting code name { ops with below := ops.below ++ base } =
        multisigValid setting code name ops := rfl
      simp only [hops] at h
      simp only [MultisigOperands.take_append hops, hvalid]
      cases hv : multisigValid setting code name ops with
      | error e =>
        rw [hv] at h
        cases h
      | ok valid =>
        simp only [hv] at h ⊢
        split_ifs at h ⊢ with hdummy
        · cases h
        · simp only [Prod.mk.injEq] at h
          obtain ⟨hlog, rfl⟩ := h
          rw [hlog, List.append_assoc]

/-! ### Handlers -/

lemma TimeLock.operand_append {name : String} {s : Stack} {n : Nat}
    (h : operand name s = .ok n) : operand name (s ++ base) = .ok n := by
  cases s with
  | nil => cases h
  | cons top s => exact h

lemma TimeLock.ruled_append {name : String} {s : Stack} {off : Bool} {reply : String}
    {rule : Nat → Except Fault String} {log : String}
    (h : (if off then .ok reply else operand name s >>= rule) = .ok log) :
    (if off then .ok reply else operand name (s ++ base) >>= rule) = .ok log := by
  cases off with
  | true => exact h
  | false =>
    obtain ⟨n, hn, hrule⟩ := Except.bind_eq_ok.1 h
    exact Except.bind_eq_ok.2 ⟨n, operand_append hn, hrule⟩

lemma NamedHandler.run_append {handler : NamedHandler} {setting : Setting} {name log : String}
    {s : Stack} (h : handler.run setting name s = .ok log) :
    handler.run setting name (s ++ base) = .ok log := by
  cases handler with
  | nop => exact h
  | checkLockTime => exact TimeLock.ruled_append h
  | checkSequence => exact TimeLock.ruled_append h

namespace Machine

variable {env : Env} {i : Instruction} {is : List Instruction} {m m' : Machine} {log : String}

def above (m : Machine) (base : Stack) : Machine := { m with stack := m.stack ++ base }

lemma above_executing : (m.above base).executing = m.executing := rfl

lemma above_size : (m.above base).size = base.length + m.size := by
  change (m.stack ++ base).length + m.altstack.length =
    base.length + (m.stack.length + m.altstack.length)
  rw [List.length_append]
  omega

lemma above_countOps {n : Nat} (h : m.countOps n = .ok m') :
    (m.above base).countOps n = .ok (m'.above base) := by
  unfold countOps at h ⊢
  split_ifs at h with hops
  cases h
  exact if_neg hops

/-! ### Instructions -/

lemma above_onStack {e : Effect} (he : e.Frames) (h : m.onStack e = (.ok log, m')) :
    (m.above base).onStack e = (.ok log, m'.above base) := by
  obtain ⟨left, hleft, rfl⟩ := onStack_eq_ok.1 h
  exact onStack_eq_ok.2 ⟨left ++ base, he base m.stack log left hleft, rfl⟩

lemma above_branch {name : String} {negated : Bool} (h : m.branch name negated = (.ok log, m')) :
    (m.above base).branch name negated = (.ok log, m'.above base) := by
  unfold branch at h ⊢
  rw [above_executing]
  split_ifs at h ⊢
  · rcases m with ⟨- | ⟨a, s⟩, altstack, conditions, opCount, codeStart⟩
    · cases h
    · cases h
      rfl
  · cases h
    rfl

lemma above_otherwise {name : String} (h : m.otherwise name = (.ok log, m')) :
    (m.above base).otherwise name = (.ok log, m'.above base) := by
  rcases m with ⟨stack, altstack, - | ⟨c, cs⟩, opCount, codeStart⟩
  · cases h
  · cases h
    rfl

lemma above_endBranch {name : String} (h : m.endBranch name = (.ok log, m')) :
    (m.above base).endBranch name = (.ok log, m'.above base) := by
  rcases m with ⟨stack, altstack, - | ⟨c, cs⟩, opCount, codeStart⟩
  · cases h
  · cases h
    rfl

lemma above_toAltstack {name : String} (h : m.toAltstack name = (.ok log, m')) :
    (m.above base).toAltstack name = (.ok log, m'.above base) := by
  rcases m with ⟨- | ⟨a, s⟩, altstack, conditions, opCount, codeStart⟩
  · cases h
  · cases h
    rfl

lemma above_fromAltstack {name : String} (h : m.fromAltstack name = (.ok log, m')) :
    (m.above base).fromAltstack name = (.ok log, m'.above base) := by
  rcases m with ⟨stack, - | ⟨a, s⟩, conditions, opCount, codeStart⟩
  · cases h
  · cases h
    rfl

lemma above_checkMultisig {name : String} {verify : Bool}
    (h : m.checkMultisig env name verify = (.ok log, m')) :
    (m.above base).checkMultisig env name verify = (.ok log, m'.above base) := by
  cases hstack : m.stack with
  | nil =>
    simp only [checkMultisig, hstack] at h
    cases h
  | cons count s =>
    have habove : (m.above base).stack = count :: (s ++ base) := by
      rw [above, hstack, List.cons_append]
    simp only [checkMultisig, hstack] at h
    simp only [checkMultisig, habove]
    cases hcount : Signature.count? count maxKeys with
    | none =>
      rw [hcount] at h
      cases h
    | some keyCount =>
      simp only [hcount] at h ⊢
      cases hops : m.countOps keyCount with
      | error e =>
        rw [hops] at h
        cases h
      | ok counted =>
        rw [hops] at h
        rw [above_countOps hops]
        exact above_onStack (Effect.frames_checkMultisig _ _ name verify keyCount) h

/-- **An opcode's own effect** keeps to the items it needs, unless it pushes their number. -/
lemma above_runBuiltin {name : String} {offset : Nat} {b : Builtin} (hb : b ≠ .depth)
    (h : m.runBuiltin env name offset b = (.ok log, m')) :
    (m.above base).runBuiltin env name offset b = (.ok log, m'.above base) := by
  cases b with
  | depth => exact absurd rfl hb
  | number n =>
    cases h
    rfl
  | nop =>
    cases h
    rfl
  | codeSeparator =>
    cases h
    rfl
  | fail => cases h
  | branch negated => exact above_branch h
  | otherwise => exact above_otherwise h
  | endBranch => exact above_endBranch h
  | toAltstack => exact above_toAltstack h
  | fromAltstack => exact above_fromAltstack h
  | checkMultisig verify => exact above_checkMultisig h
  | pick move => exact above_onStack (Effect.frames_pick name move) h
  | shuffle op => exact above_onStack (op.frames_effect name) h
  -- the others look at one, two or three items
  | verify => exact above_onStack (Effect.frames_one _) h
  | ifDup => exact above_onStack (Effect.frames_one _) h
  | size => exact above_onStack (Effect.frames_one _) h
  | unary op => exact above_onStack (Effect.frames_one _) h
  | digest op => exact above_onStack (Effect.frames_one _) h
  | invert => exact above_onStack (Effect.frames_one _) h
  | equal verify => exact above_onStack (Effect.frames_two _) h
  | binary op => exact above_onStack (Effect.frames_two _) h
  | numEqualVerify => exact above_onStack (Effect.frames_two _) h
  | shift left => exact above_onStack (Effect.frames_two _) h
  | concat => exact above_onStack (Effect.frames_two _) h
  | keep left => exact above_onStack (Effect.frames_two _) h
  | bitwise op => exact above_onStack (Effect.frames_two _) h
  | checkSig verify => exact above_onStack (Effect.frames_two _) h
  | within => exact above_onStack (Effect.frames_three _) h
  | substring => exact above_onStack (Effect.frames_three _) h

lemma above_push {data : Bytes} (h : m.push data = (.ok log, m')) :
    (m.above base).push data = (.ok log, m'.above base) := by
  unfold push at h ⊢
  rw [above_executing]
  split_ifs at h ⊢
  · cases h
  · cases h
    rfl
  · cases h
    rfl

/-- Whether an opcode runs as the one that pushes the number of items. -/
def asksDepth (m : Machine) (env : Env) (op : Opcode) : Bool :=
  !m.skips op && (env.table.handler? op).isNone && Builtin.ofOpcode? op == some .depth

lemma above_runHandler {op : Opcode} {handler : NamedHandler}
    (h : m.runHandler env op handler = (.ok log, m')) :
    (m.above base).runHandler env op handler = (.ok log, m'.above base) := by
  obtain ⟨hrun, rfl⟩ := runHandler_named_eq_ok.1 h
  exact runHandler_named_eq_ok.2 ⟨NamedHandler.run_append hrun, rfl⟩

variable (ht : env.table.Registered)
include ht

lemma above_runOpcode {op : Opcode} {offset : Nat} (hdepth : m.asksDepth env op = false)
    (h : m.runOpcode env op offset = (.ok log, m')) :
    (m.above base).runOpcode env op offset = (.ok log, m'.above base) := by
  rw [runOpcode_eq_ok] at h ⊢
  obtain ⟨hdisabled, hif, hnotif, h⟩ := h
  refine ⟨hdisabled, hif, hnotif, ?_⟩
  rcases h with ⟨hskips, hlog, rfl⟩ | ⟨hskips, hruns⟩
  · exact .inl ⟨hskips, hlog, rfl⟩
  · refine .inr ⟨hskips, ?_⟩
    rcases hruns with ⟨handler, hhandler, hrun⟩ | ⟨hnone, b, hb, hrun⟩
    · obtain ⟨n, rfl⟩ := ht op handler hhandler
      exact .inl ⟨_, hhandler, above_runHandler hrun⟩
    · refine .inr ⟨hnone, b, hb, above_runBuiltin ?_ hrun⟩
      rintro rfl
      rw [asksDepth, hskips, hnone, hb] at hdepth
      cases hdepth

lemma above_executeChecked (hdepth : m.asksDepth env i.opcode = false)
    (hsize : base.length + m'.size ≤ maxStackSize)
    (h : m.executeChecked env i = (.ok log, m')) :
    (m.above base).executeChecked env i = (.ok log, m'.above base) := by
  rw [executeChecked_eq_ok, execute_eq_ok] at h ⊢
  refine ⟨?_, le_of_eq_of_le above_size hsize⟩
  rcases h.1 with ⟨data, hdata, hpush⟩ | ⟨hdata, counted, hcount, hrun⟩
  · exact .inl ⟨data, hdata, above_push hpush⟩
  · refine .inr ⟨hdata, counted.above base, ?_, above_runOpcode ht ?_ hrun⟩
    · split_ifs at hcount ⊢
      · exact above_countOps hcount
      · cases hcount
        rfl
    · -- counting does not open or close a conditional
      unfold countOps at hcount
      split_ifs at hcount <;> cases hcount <;> exact hdepth

/-! ### Runs -/

/-- Whether a run comes to an instruction that asks for the number of items. -/
def runAsksDepth (env : Env) : List Instruction → Machine → Bool
  | [], _ => false
  | i :: is, m =>
    m.asksDepth env i.opcode ||
      match m.executeChecked env i with
      | (.ok _, m) => runAsksDepth env is m
      | (.error _, _) => false

end Machine

def Step.above (x : Step) (base : Stack) : Step := { x with stack := x.stack ++ base }

def Step.size (x : Step) : Nat := x.stack.length + x.altstack.length

namespace Machine

variable {env : Env} {i : Instruction} {is : List Instruction} {m m' : Machine}

/-- **A run without a fault** goes the same way above more items. -/
lemma above_run (ht : env.table.Registered) (hok : (run env is m).fault? = none)
    (hdepth : runAsksDepth env is m = false)
    (hsize : ∀ x ∈ (run env is m).steps, base.length + x.size ≤ maxStackSize) :
    run env is (m.above base) =
      ⟨(run env is m).steps.map (·.above base), none, (run env is m).machine.above base⟩ := by
  induction is generalizing m with
  | nil =>
    have hfinish : (m.above base).finish? = none := hok
    rw [run_nil, hfinish]
    rfl
  | cons i is ih =>
    cases h : m.executeChecked env i with
    | mk reply m' =>
      cases reply with
      | error e =>
        rw [run_cons_error h] at hok
        cases hok
      | ok log =>
        rw [runAsksDepth, h, Bool.or_eq_false_iff] at hdepth
        rw [run_cons_ok h] at hok hsize ⊢
        obtain ⟨hfirst, hrest⟩ := List.forall_mem_cons.1 hsize
        rw [run_cons_ok (above_executeChecked ht hdepth.1 hfirst h), ih hok hdepth.2 hrest]
        rfl

end Machine

namespace Stepper

variable {env : Env} {stack base : Stack}

def asksDepth (s : Stepper) : Bool :=
  match s.pending with
  | .ok is => Machine.runAsksDepth s.env is s.machine
  | .error _ => false

/-- **Scripts only touch the part of the stack they use**, where all handlers are ones that a
configuration can name. A run that ends without a fault, never asks for the number of items and
stays small enough goes the same way above more items: each snapshot is the same but for these, and
there is no fault either. -/
theorem run_frame (ht : env.table.Registered) (hok : (start env stack).run.1.2 = none)
    (hdepth : (start env stack).asksDepth = false)
    (hsize : ∀ x ∈ (start env stack).run.1.1,
      base.length + (x.stack.length + x.altstack.length) ≤ maxStackSize) :
    (start env (stack ++ base)).run.1 =
      ((start env stack).run.1.1.map fun x => { x with stack := x.stack ++ base }, none) := by
  unfold run at hok hsize ⊢
  unfold asksDepth at hdepth
  simp only [start] at hok hsize hdepth ⊢
  cases his : env.script.instructions with
  | error e =>
    rw [his] at hok
    cases hok
  | ok is =>
    simp only [his] at hok hsize hdepth ⊢
    have hrun := Machine.above_run ht hok hdepth hsize
    simp only [Machine.above] at hrun
    rw [hrun]
    rfl

theorem run_frame_pick :
    let env : Env := ⟨OpcodeTable.timeLocked, {}, .standalone, ⟨[0x51, 0x79, 0x93, 0x6b]⟩⟩
    let stack : Stack := [[0x02], [0x03]]
    let base : Stack := [[0x07], []]
    (start env stack).run.1.2 = none ∧ (start env (stack ++ base)).run.1 =
      ((start env stack).run.1.1.map fun x => { x with stack := x.stack ++ base }, none) :=
  ⟨rfl, run_frame OpcodeTable.registered_timeLocked rfl rfl (by decide)⟩

end Stepper

end CoinScript
