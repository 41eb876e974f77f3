import CoinScript.Proofs.Machine.Run
import CoinScript.Proofs.Opcode.Handlers
import CoinScript.Proofs.Script.Parts

/-!
The faults that no instruction has.

That a conditional was left open can only be said at the end of a script. Nothing that an
instruction does ends in this fault: not an effect on the stack, not a lock time handler, and not
the work on scripts and transactions behind a signature check. Nor does any of it end in the fault
that bytes do not read as instructions, as long as the signed part of the script does read as such.
Only a function of the host might, which can refuse with any fault.
-/

namespace CoinScript

variable {α β : Type} {readable : Bool}

/-- A computation whose fault, if it has one, is not that a conditional was left open. -/
def Spares (x : Except Fault α) : Prop := x ≠ .error .unterminatedConditional

/-- Whether a fault is not of an instruction's own making: that a conditional was left open or, as
far as the script is known to be readable, that bytes do not read as instructions. -/
@[simp] def Fault.isForeign (readable : Bool) : Fault → Bool
  | unterminatedConditional => true
  | parse _ => readable
  | _ => false

/-- A computation whose fault, if it has one, is of its own making. -/
def OwnFault (readable : Bool) (x : Except Fault α) : Prop :=
  ∀ e, x = .error e → e.isForeign readable = false

@[simp] lemma ownFault_ok (a : α) : OwnFault readable (.ok a) := nofun

@[simp] lemma ownFault_error {e : Fault} :
    OwnFault readable (.error e : Except Fault α) ↔ e.isForeign readable = false := by
  simp [OwnFault]

@[simp] lemma ownFault_throw {e : Fault} :
    OwnFault readable (throw e : Except Fault α) ↔ e.isForeign readable = false :=
  ownFault_error

lemma OwnFault.bind_ok {x : Except Fault α} {f : α → Except Fault β} (hx : OwnFault readable x)
    (hf : ∀ a, x = .ok a → OwnFault readable (f a)) : OwnFault readable (x >>= f) := by
  cases x with
  | ok a => exact hf a rfl
  | error e => exact ownFault_error.2 (hx e rfl)

lemma OwnFault.bind {x : Except Fault α} {f : α → Except Fault β} (hx : OwnFault readable x)
    (hf : ∀ a, OwnFault readable (f a)) : OwnFault readable (x >>= f) :=
  hx.bind_ok fun a _ => hf a

lemma OwnFault.check {c : Prop} [Decidable c] {e : Fault} (he : e.isForeign readable = false)
    {f : Unit → Except Fault α} (hf : ∀ u, OwnFault readable (f u)) :
    OwnFault readable (if c then throw e >>= f else f ()) := by
  split
  · exact (ownFault_throw.2 he).bind hf
  · exact hf ()

lemma ownFault_mapM {f : α → Except Fault β} (hf : ∀ a, OwnFault readable (f a)) (as : List α) :
    OwnFault readable (as.mapM f) := by
  induction as with
  | nil => exact ownFault_ok []
  | cons a as ih =>
    rw [List.mapM_cons]
    exact (hf a).bind fun b => ih.bind fun bs => ownFault_ok (b :: bs)

/-! ### Scripts -/

namespace Script

variable {s t : Script}

lemma ownFault_instructions (s : Script) : OwnFault false s.instructions := by
  intro e he
  obtain ⟨cause, rfl⟩ := instructionsFrom_eq_error he
  rfl

lemma ownFault_of_instructions {is : List Instruction} (h : s.instructions = .ok is) :
    OwnFault readable s.instructions := by
  rw [h]
  exact ownFault_ok is

lemma ownFault_filter (hs : OwnFault readable s.instructions) (keep : Instruction → Bool) :
    OwnFault readable (s.filter keep) :=
  hs.bind fun _ => ownFault_ok _

lemma exists_of_filter {keep : Instruction → Bool} (h : s.filter keep = .ok t) :
    ∃ is, t.instructions = .ok is := by
  cases his : s.instructions with
  | error e =>
    rw [filter, his] at h
    cases h
  | ok is =>
    rw [filter_of_instructions his] at h
    cases h
    exact ⟨_, instructions_flatMap fun i hi =>
      isProper_of_instructions his i (List.mem_filter.1 hi).1⟩

lemma ownFault_strip (hs : OwnFault readable s.instructions) (signatures : List Bytes) :
    OwnFault readable (Signature.strip s signatures) ∧
      ∀ t, Signature.strip s signatures = .ok t → OwnFault readable t.instructions := by
  induction signatures generalizing s with
  | nil =>
    refine ⟨ownFault_ok s, ?_⟩
    rintro _ ⟨⟩
    exact hs
  | cons sig sigs ih =>
    have hstrip : Signature.strip s (sig :: sigs) =
        s.removePush sig >>= fun s => Signature.strip s sigs := List.foldlM_cons
    have hrest {s' : Script} (h : s.removePush sig = .ok s') :
        OwnFault readable s'.instructions := by
      obtain ⟨is, his⟩ := exists_of_filter h
      exact ownFault_of_instructions his
    rw [hstrip]
    refine ⟨(ownFault_filter hs _).bind_ok fun s' h => (ih (hrest h)).1, fun t ht => ?_⟩
    obtain ⟨s', hs', ht⟩ := Except.bind_eq_ok.1 ht
    exact (ih (hrest hs')).2 t ht

end Script

/-! ### Transactions -/

lemma FieldDescriptor.ownFault_coerce (f : FieldDescriptor) (v : FieldValue) :
    OwnFault readable (f.coerce v) := by
  unfold coerce
  dsimp only
  split <;> repeat' split
  all_goals simp

lemma Record.ownFault_set (r : Record) (name : String) (v : FieldValue) :
    OwnFault readable (r.set name v) := by
  unfold set
  split
  · simp
  · split
    · exact (FieldDescriptor.ownFault_coerce _ v).bind fun _ => ownFault_ok _
    · simp

namespace Transaction

variable (tx : Transaction)

lemma ownFault_editVector (kind : EntityKind) {edit : List Record → Except Fault (List Record)}
    (hedit : ∀ rs, OwnFault readable (edit rs)) : OwnFault readable (tx.editVector kind edit) := by
  unfold editVector vectorName
  refine OwnFault.bind ?_ fun name => ?_
  · split <;> simp
  · split
    · exact (hedit _).bind fun _ => ownFault_ok _
    · simp

lemma ownFault_required (name : String) (a? : Option α) :
    OwnFault readable (required name a?) := by
  cases a? <;> simp [required]

lemma ownFault_inputSequence (index : Nat) : OwnFault readable (tx.inputSequence index) := by
  unfold inputSequence input word
  refine OwnFault.bind ?_ fun r => (ownFault_required _ _).bind fun v => ?_
  · split <;> simp
  · split <;> simp

end Transaction

namespace SignatureHash

variable (code : Script) (tx : Transaction) (index : Nat) (t : SighashType)

lemma ownFault_blankScripts (inputs : List Record) :
    OwnFault readable (blankScripts code index inputs) := by
  unfold blankScripts
  refine (ownFault_mapM (fun r => r.ownFault_set _ _) inputs).bind fun blank => ?_
  split
  · exact (Record.ownFault_set _ _ _).bind fun _ => ownFault_ok _
  · exact ownFault_ok _

lemma ownFault_zeroSequences (inputs : List Record) :
    OwnFault readable (zeroSequences index inputs) := by
  refine ownFault_mapM (fun (r, i) => ?_) _
  dsimp only
  split
  · exact ownFault_ok _
  · exact r.ownFault_set _ _

lemma ownFault_onlyOutput (outputs : List Record) :
    OwnFault readable (onlyOutput index outputs) := by
  refine ownFault_mapM (fun (r, i) => ?_) _
  dsimp only
  split
  · exact (r.ownFault_set _ _).bind fun r => r.ownFault_set _ _
  · exact ownFault_ok _

variable {code} (hcode : OwnFault readable code.instructions)
include hcode

lemma ownFault_signedCopy : OwnFault readable (signedCopy code tx index t) := by
  have hzero (tx : Transaction) : OwnFault readable (tx.editInputs (zeroSequences index)) :=
    tx.ownFault_editVector _ (ownFault_zeroSequences index)
  have hempty (tx : Transaction) : OwnFault readable (tx.editOutputs fun _ => pure []) :=
    tx.ownFault_editVector _ fun _ => ownFault_ok _
  have honly (tx : Transaction) : OwnFault readable (tx.editOutputs (onlyOutput index)) :=
    tx.ownFault_editVector _ (ownFault_onlyOutput index)
  have hone (tx : Transaction) : OwnFault readable (if t.anyoneCanPay then
      tx.editInputs fun rs => pure rs[index]?.toList else pure tx) := by
    split
    · exact tx.ownFault_editVector _ fun _ => ownFault_ok _
    · exact ownFault_ok tx
  unfold signedCopy
  refine OwnFault.check (by simp) fun _ => OwnFault.check (by simp) fun _ => ?_
  refine (Script.ownFault_filter hcode _).bind fun code => ?_
  refine (tx.ownFault_editVector _ (ownFault_blankScripts code index)).bind fun copy => ?_
  dsimp only
  split
  · exact (hempty copy).bind fun copy => (hzero copy).bind hone
  · split
    · exact (honly copy).bind fun copy => (hzero copy).bind hone
    · exact hone copy

lemma ownFault_digest : OwnFault readable (digest code tx index t) :=
  OwnFault.bind ((ownFault_signedCopy tx index t hcode).bind fun _ => ownFault_ok _)
    fun _ => ownFault_ok _

end SignatureHash

lemma ownFault_checkSignature (signature key : Bytes) {code : Script} (tx : Transaction)
    (index : Nat) (hcode : OwnFault readable code.instructions) :
    OwnFault readable (checkSignature signature key code tx index) := by
  unfold checkSignature
  split
  · exact (SignatureHash.ownFault_digest _ _ _ hcode).bind fun _ => ownFault_ok _
  · exact ownFault_ok false

lemma Setting.ownFault_transaction (s : Setting) (name : String) :
    OwnFault readable (s.transaction name) := by
  unfold transaction
  split <;> simp

/-! ### Handlers -/

namespace TimeLock

lemma ownFault_operand (name : String) (stack : List Bytes) :
    OwnFault readable (operand name stack) := by
  unfold operand
  split
  · simp
  · dsimp only
    repeat' split
    all_goals simp

lemma ownFault_requireReached (lockTime : Nat) (chain? : Option ChainState) :
    OwnFault readable (requireReached lockTime chain?) := by
  unfold requireReached
  split
  · simp
  · split <;> simp

lemma ownFault_checkLockTime (s : Setting) (name : String) (stack : List Bytes) :
    OwnFault readable (checkLockTime s name stack) := by
  unfold checkLockTime
  split
  · exact ownFault_ok _
  refine (ownFault_operand name stack).bind fun n => (s.ownFault_transaction name).bind fun tx => ?_
  refine OwnFault.check (by simp) fun _ => OwnFault.check (by simp) fun _ => ?_
  refine (tx.ownFault_inputSequence s.input).bind fun seq => OwnFault.check (by simp) fun _ => ?_
  exact (ownFault_requireReached _ _).bind fun _ => ownFault_ok _

lemma ownFault_checkSequence (s : Setting) (name : String) (stack : List Bytes) :
    OwnFault readable (checkSequence s name stack) := by
  unfold checkSequence
  split
  · exact ownFault_ok _
  refine (ownFault_operand name stack).bind fun n => ?_
  split
  · exact ownFault_ok _
  refine (s.ownFault_transaction name).bind fun tx => OwnFault.check (by simp) fun _ => ?_
  refine (tx.ownFault_inputSequence s.input).bind fun seq => OwnFault.check (by simp) fun _ => ?_
  exact OwnFault.check (by simp) fun _ => OwnFault.check (by simp) fun _ => ownFault_ok _

end TimeLock

lemma NamedHandler.ownFault_run (h : NamedHandler) (s : Setting) (name : String)
    (stack : List Bytes) : OwnFault readable (h.run s name stack) := by
  cases h with
  | checkLockTime => exact TimeLock.ownFault_checkLockTime s name stack
  | checkSequence => exact TimeLock.ownFault_checkSequence s name stack
  | nop => exact ownFault_ok _

/-- The functions of the host that a table registers end in faults of their own making only. -/
def OpcodeTable.HostsOwnFaults (readable : Bool) (t : OpcodeTable) : Prop :=
  ∀ op name f, t.handler? op = some (.host name f) → ∀ call, OwnFault readable (f call).1

lemma OpcodeTable.Registered.hostsOwnFaults {t : OpcodeTable} (h : t.Registered) :
    t.HostsOwnFaults readable := by
  intro op name f hf
  obtain ⟨n, hn⟩ := h op _ hf
  cases hn

/-! ### Effects on the stack -/

namespace Effect

lemma ownFault_one (name : String) {f : Bytes → Reply} (hf : ∀ a, OwnFault readable (f a).1)
    (s : Stack) : OwnFault readable (one name f s).1 := by
  unfold one missing
  split
  · exact hf _
  · simp

lemma ownFault_two (name : String) {f : Bytes → Bytes → Reply}
    (hf : ∀ a b, OwnFault readable (f a b).1) (s : Stack) :
    OwnFault readable (two name f s).1 := by
  unfold two missing
  split
  · exact hf _ _
  · simp

lemma ownFault_three (name : String) {f : Bytes → Bytes → Bytes → Reply}
    (hf : ∀ a b c, OwnFault readable (f a b c).1) (s : Stack) :
    OwnFault readable (three name f s).1 := by
  unfold three missing
  split
  · exact hf _ _ _
  · simp

end Effect

namespace Reply

@[simp] lemma ownFault_item (name : String) (b : Bytes) : OwnFault readable (item name b).1 :=
  ownFault_ok _

@[simp] lemma ownFault_stackFault (fault : StackFault) (left : List Bytes) :
    OwnFault readable (stackFault fault left).1 := by
  simp [stackFault]

@[simp] lemma ownFault_verdict (name : String) (verify value : Bool) (log : String) :
    OwnFault readable (verdict name verify value log).1 := by
  cases verify <;> cases value <;> simp [verdict]

end Reply

lemma Shuffle.ownFault_effect (op : Shuffle) (name : String) (s : Stack) :
    OwnFault readable (op.effect name s).1 := by
  unfold effect Effect.missing
  split <;> simp

lemma BinaryOp.ownFault_effect (op : BinaryOp) (name : String) (s : Stack) :
    OwnFault readable (op.effect name s).1 := by
  refine Effect.ownFault_two name (fun second first => ?_) s
  dsimp only
  split <;> simp

lemma BitOp.ownFault_effect (op : BitOp) (name : String) (s : Stack) :
    OwnFault readable (op.effect name s).1 := by
  refine Effect.ownFault_two name (fun b a => ?_) s
  split <;> simp

lemma MultisigOperands.ownFault_take (name : String) (keyCount : Nat) (s : Stack) :
    OwnFault readable (take name keyCount s) := by
  unfold take
  repeat' split
  all_goals simp

lemma Signature.ownFault_matchAll {check : Bytes → Bytes → Except Fault Bool}
    (hcheck : ∀ sig key, OwnFault readable (check sig key)) (sigs keys : List Bytes) :
    OwnFault readable (matchAll check sigs keys) := by
  induction keys generalizing sigs with
  | nil => cases sigs <;> exact ownFault_ok _
  | cons key keys ih =>
    cases sigs with
    | nil => exact ownFault_ok true
    | cons sig sigs =>
      refine (hcheck sig key).bind fun valid => ?_
      dsimp only
      generalize (if valid = true then sigs else sig :: sigs) = left
      split
      · exact ownFault_ok false
      · exact ih left

namespace Effect

variable (name : String) (s : Stack)

lemma ownFault_ifDup : OwnFault readable (ifDup name s).1 := by
  refine ownFault_one name (fun a => ?_) s
  split <;> simp

lemma ownFault_pick (move : Bool) : OwnFault readable (pick name move s).1 := by
  unfold pick missing
  dsimp only
  repeat' split
  all_goals simp

lemma ownFault_concat : OwnFault readable (concat name s).1 := by
  refine ownFault_two name (fun b a => ?_) s
  split <;> simp

lemma ownFault_shift (left : Bool) : OwnFault readable (shift name left s).1 := by
  refine ownFault_two name (fun bits number => ?_) s
  split
  · simp
  · split <;> simp

lemma ownFault_substring : OwnFault readable (substring name s).1 := by
  refine ownFault_three name (fun size start data => ?_) s
  repeat' split
  all_goals simp

lemma ownFault_keep (left : Bool) : OwnFault readable (keep name left s).1 := by
  refine ownFault_two name (fun size data => ?_) s
  split
  · simp
  · split <;> simp

variable (setting : Setting) {code : Script} (verify : Bool)
  (hcode : OwnFault readable code.instructions)
include hcode

lemma ownFault_checkSig : OwnFault readable (checkSig setting code name verify s).1 := by
  refine ownFault_two name (fun key sig => ?_) s
  split
  next e h => exact ownFault_error.2 (setting.ownFault_transaction name e h)
  next tx h =>
    have hcheck : OwnFault readable (code.removePush sig >>= fun code =>
        checkSignature sig key code tx setting.input) :=
      (Script.ownFault_filter hcode _).bind_ok fun code' hcode' => by
        obtain ⟨is, his⟩ := Script.exists_of_filter hcode'
        exact ownFault_checkSignature _ _ _ _ (Script.ownFault_of_instructions his)
    split
    next e h => exact ownFault_error.2 (hcheck e h)
    next valid h => exact Reply.ownFault_verdict name verify valid _

lemma ownFault_multisigValid (ops : MultisigOperands) :
    OwnFault readable (multisigValid setting code name ops) := by
  obtain ⟨hstrip, hstripped⟩ := Script.ownFault_strip hcode ops.signatures
  refine (setting.ownFault_transaction name).bind fun tx => hstrip.bind_ok fun code' hcode' => ?_
  exact Signature.ownFault_matchAll
    (fun _ _ => ownFault_checkSignature _ _ _ _ (hstripped code' hcode')) _ _

lemma ownFault_checkMultisig (keyCount : Nat) :
    OwnFault readable (checkMultisig setting code name verify keyCount s).1 := by
  unfold checkMultisig
  split
  next e h => exact ownFault_error.2 (MultisigOperands.ownFault_take name keyCount s.tail e h)
  next ops h =>
    split
    next e h => exact ownFault_error.2 (ownFault_multisigValid name setting hcode ops e h)
    next valid h =>
      split
      · simp
      · exact Reply.ownFault_verdict name verify valid _

end Effect

/-! ### Instructions -/

namespace Machine

variable (m : Machine) {env : Env}

lemma ownFault_countOps (n : Nat) : OwnFault readable (m.countOps n) := by
  unfold countOps
  split <;> simp

lemma code_of_counted {m' : Machine} {n : Nat} (h : m.countOps n = .ok m') :
    m'.code env = m.code env := by
  rw [(countOps_eq_ok.1 h).2]
  rfl

lemma ownFault_branch (name : String) (negated : Bool) :
    OwnFault readable (m.branch name negated).1 := by
  unfold branch
  repeat' split
  all_goals simp

lemma ownFault_otherwise (name : String) : OwnFault readable (m.otherwise name).1 := by
  unfold otherwise
  split <;> simp

lemma ownFault_endBranch (name : String) : OwnFault readable (m.endBranch name).1 := by
  unfold endBranch
  split <;> simp

lemma ownFault_toAltstack (name : String) : OwnFault readable (m.toAltstack name).1 := by
  unfold toAltstack
  split <;> simp

lemma ownFault_fromAltstack (name : String) : OwnFault readable (m.fromAltstack name).1 := by
  unfold fromAltstack
  split <;> simp

variable (hcode : OwnFault readable (m.code env).instructions)
include hcode

lemma ownFault_checkMultisig (name : String) (verify : Bool) :
    OwnFault readable (m.checkMultisig env name verify).1 := by
  unfold checkMultisig
  split
  · simp
  · split
    · simp
    · split
      next e he => exact ownFault_error.2 (m.ownFault_countOps _ e he)
      next m' hm' =>
        rw [← m.code_of_counted hm'] at hcode
        exact Effect.ownFault_checkMultisig _ _ _ _ hcode _

lemma ownFault_runBuiltin (name : String) (offset : Nat) (b : Builtin) :
    OwnFault readable (m.runBuiltin env name offset b).1 := by
  cases b with
  | branch negated => exact m.ownFault_branch name negated
  | otherwise => exact m.ownFault_otherwise name
  | endBranch => exact m.ownFault_endBranch name
  | fail => exact ownFault_error.2 (by simp)
  | toAltstack => exact m.ownFault_toAltstack name
  | fromAltstack => exact m.ownFault_fromAltstack name
  | verify => exact Effect.ownFault_one name (fun a => Reply.ownFault_verdict _ _ _ _) m.stack
  | shuffle op => exact op.ownFault_effect name m.stack
  | ifDup => exact Effect.ownFault_ifDup name m.stack
  | pick move => exact Effect.ownFault_pick name m.stack move
  | size => exact Effect.ownFault_one name (fun a => ownFault_ok _) m.stack
  | equal verify =>
    exact Effect.ownFault_two name (fun b a => Reply.ownFault_verdict _ _ _ _) m.stack
  | unary op => exact Effect.ownFault_one name (fun a => ownFault_ok _) m.stack
  | binary op => exact op.ownFault_effect name m.stack
  | numEqualVerify =>
    exact Effect.ownFault_two name (fun b a => Reply.ownFault_verdict _ _ _ _) m.stack
  | within => exact Effect.ownFault_three name (fun a b c => ownFault_ok _) m.stack
  | shift left => exact Effect.ownFault_shift name m.stack left
  | digest op => exact Effect.ownFault_one name (fun a => ownFault_ok _) m.stack
  | concat => exact Effect.ownFault_concat name m.stack
  | substring => exact Effect.ownFault_substring name m.stack
  | keep left => exact Effect.ownFault_keep name m.stack left
  | invert => exact Effect.ownFault_one name (fun a => Reply.ownFault_item _ _) m.stack
  | bitwise op => exact op.ownFault_effect name m.stack
  | checkSig verify => exact Effect.ownFault_checkSig name m.stack _ verify hcode
  | checkMultisig verify => exact m.ownFault_checkMultisig hcode name verify
  | number n => exact ownFault_ok _
  | nop => exact ownFault_ok _
  | depth => exact ownFault_ok _
  | codeSeparator => exact ownFault_ok _

omit hcode in
lemma ownFault_runHandler (hhosts : env.table.HostsOwnFaults readable) {op : Opcode}
    {handler : Handler} (h : env.table.handler? op = some handler) :
    OwnFault readable (m.runHandler env op handler).1 := by
  cases handler with
  | named handler => exact handler.ownFault_run _ _ _
  | host name f => exact hhosts op name f h _

variable (hhosts : env.table.HostsOwnFaults readable)
include hhosts

lemma ownFault_runOpcode (op : Opcode) (offset : Nat) :
    OwnFault readable (m.runOpcode env op offset).1 := by
  unfold runOpcode
  dsimp only
  split
  · simp
  split
  · simp
  split
  · simp
  split
  next handler hhandler => exact m.ownFault_runHandler hhosts hhandler
  next =>
    split
    next b _ => exact m.ownFault_runBuiltin hcode _ offset b
    next => simp

lemma ownFault_execute (i : Instruction) : OwnFault readable (m.execute env i).1 := by
  unfold execute push
  split
  · repeat' split
    all_goals simp
  · split
    · split
      next e he => exact ownFault_error.2 (m.ownFault_countOps 1 e he)
      next m' hm' =>
        rw [← m.code_of_counted hm'] at hcode
        exact m'.ownFault_runOpcode hcode hhosts _ _
    · exact m.ownFault_runOpcode hcode hhosts _ _

/-- **Every instruction** ends well or in a fault of its own making. -/
theorem ownFault_executeChecked (i : Instruction) :
    OwnFault readable (m.executeChecked env i).1 := by
  have hexecute := m.ownFault_execute hcode hhosts i
  unfold executeChecked
  split
  next e m' he =>
    rw [he] at hexecute
    exact ownFault_error.2 (ownFault_error.1 hexecute)
  next log m' _ => split <;> simp

omit hcode hhosts in
/-- **No instruction** ends in the fault that a conditional was left open. -/
theorem spares_executeChecked (hhosts : env.table.HostsOwnFaults false) (i : Instruction) :
    Spares (m.executeChecked env i).1 := by
  intro h
  have hown := m.ownFault_executeChecked (m.code env).ownFault_instructions hhosts i _ h
  cases hown

end Machine

end CoinScript
