import CoinScript.Profile
import CoinScript.Proofs.Transaction.Accessors
import CoinScript.Proofs.Verification.SoftFork

/-!
Time locks on the two networks.

The transactions of both networks always have a version, a lock time and sequences, and each of them
in four bytes. So what a transaction reports of them is what its fields hold, and a handler passes
exactly if the fields keep the lock. Whatever a handler says, the machine stays as it is.
-/

namespace CoinScript

open TimeLock

/-- A kind of entity always has an integer of a name, with its width and sign rule. -/
def SchemaSet.AlwaysInt (set : SchemaSet) (kind : EntityKind) (name : String) (w : Nat)
    (signed : Bool) : Prop :=
  ∃ f ∈ set.fields kind, f.name = name ∧ f.presence = .always ∧ f.encoding = .int w signed

/-- The integers that time locks are held against are always there, in four bytes. -/
structure SchemaSet.Lockable (set : SchemaSet) : Prop where
  version : set.AlwaysInt .transaction FieldName.version 4 true
  lockTime : set.AlwaysInt .transaction FieldName.lockTime 4 false
  sequence : set.AlwaysInt .txIn FieldName.sequence 4 false

variable {set : SchemaSet} {p : Profile}

lemma Profile.lockable (hp : p = .bitcoin ∨ p = .clams) : p.schemas.Lockable := by
  rcases hp with rfl | rfl
  · exact ⟨⟨_, .head _, rfl, rfl, rfl⟩, ⟨_, .tail _ (.tail _ (.tail _ (.head _))), rfl, rfl, rfl⟩,
      ⟨_, .tail _ (.tail _ (.head _)), rfl, rfl, rfl⟩⟩
  · exact ⟨⟨_, .head _, rfl, rfl, rfl⟩,
      ⟨_, .tail _ (.tail _ (.tail _ (.tail _ (.head _)))), rfl, rfl, rfl⟩,
      ⟨_, .tail _ (.tail _ (.head _)), rfl, rfl, rfl⟩⟩

/-! ### Fields -/

lemma Record.WellFormed.exists_int {k : EntityKind} {r : Record} (hr : r.WellFormed set k)
    {name : String} {w : Nat} {signed : Bool} (h : set.AlwaysInt k name w signed) :
    ∃ v, r.int? name = some v ∧ InRange w signed v := by
  obtain ⟨f, hf, rfl, halways, he⟩ := h
  have hw : w ≤ 8 := ((set.sound k f hf).sized w signed he).2
  have hfilled := hr.tidy.filled f (by rwa [descriptors, hr.schemas_eq, hr.kind_eq])
  rw [halways] at hfilled
  obtain ⟨u, hu⟩ := Option.isSome_iff_exists.1 hfilled
  have hint (v : Int) (huv : u.int? = some v) : r.int? f.name = some v := by
    rw [int?, hu, Option.bind_some, huv]
  have hfits := hr.matches_of_get? hf hu
  rw [he] at hfits
  cases hfits with
  | int fits => exact ⟨_, hint _ rfl, (intFits_iff hw true _).1 fits⟩
  | uint fits => exact ⟨_, hint _ rfl, (intFits_iff hw false _).1 fits⟩

namespace Transaction

variable {tx : Transaction}

lemma int?_lockTime (hset : set.Lockable) (hr : tx.record.WellFormed set .transaction) :
    tx.record.int? FieldName.lockTime = some (tx.lockTime : Int) := by
  obtain ⟨v, hv, hrange⟩ := hr.exists_int hset.lockTime
  have hlow := lockTime_eq hv
  have hword : 0 ≤ v ∧ v < 0x100000000 := hrange
  rw [hv, hlow, Int.emod_eq_of_lt hword.1 hword.2]

lemma int?_version (hset : set.Lockable) (hr : tx.record.WellFormed set .transaction) :
    tx.record.int? FieldName.version = some tx.version := by
  obtain ⟨v, hv, hrange⟩ := hr.exists_int hset.version
  have hsmall : -0x80000000 ≤ v ∧ v < 0x80000000 := hrange
  rcases version_eq hr hv with heq | ⟨-, hlarge, -⟩
  · rw [hv, heq]
  · omega

lemma inputSequence_eq_ok_iff (hset : set.Lockable) (hr : tx.record.WellFormed set .transaction)
    {i seq : Nat} : tx.inputSequence i = .ok seq ↔
      ∃ input ∈ tx.inputs[i]?, input.int? FieldName.sequence = some (seq : Int) := by
  cases hi : tx.inputs[i]? with
  | none =>
    have hinput : ∀ r, tx.input i ≠ .ok r := by
      intro r h
      rw [input_eq_ok, hi] at h
      cases h
    constructor
    · intro h
      obtain ⟨r, hr, -⟩ := Except.bind_eq_ok.1 h
      exact absurd hr (hinput r)
    · rintro ⟨_, ⟨⟩, _⟩
  | some input =>
    have hinput : input.WellFormed set .txIn :=
      wellFormed_of_mem_vector (hr.kind_eq.symm ▸ hr) (List.mem_of_getElem? hi)
    obtain ⟨v, hv, hrange⟩ := hinput.exists_int hset.sequence
    -- the field of these two networks is a word, so nothing is too wide for the accessor
    have hword : 0 ≤ v ∧ v < 0x100000000 := hrange
    rw [inputSequence_eq_ok hi hv]
    simp only [Option.mem_some_iff, exists_eq_left', hv, Option.some.injEq]
    omega

end Transaction

/-! ### Handlers in the machine -/

lemma Machine.runOpcode_of_handler {m : Machine} {env : Env} {op : Opcode}
    {h : NamedHandler} (hdisabled : env.table.isDisabled op = false)
    (hver : op ≠ Opcode.verIf ∧ op ≠ Opcode.verNotIf) (hplain : op.isConditional = false)
    (hh : env.table.handler? op = some h) (offset : Nat) : m.runOpcode env op offset =
      (if m.executing then h.run env.setting (env.table.name op) m.stack
        else .ok s!"{env.table.name op} (not executed)", m) := by
  unfold runOpcode
  rw [if_neg (by rw [hdisabled]; exact Bool.false_ne_true), if_neg (not_or.2 hver), hplain, hh]
  cases m.executing <;> rfl

lemma OpcodeTable.timeLocked_handlers {op : Opcode} {h : Handler}
    (hh : timeLocked.handler? op = some h) : timeLocked.isDisabled op = false ∧
      (op ≠ Opcode.verIf ∧ op ≠ Opcode.verNotIf) ∧ op.isConditional = false := by
  have hall : ∀ q ∈ timeLocked.overrides, timeLocked.isDisabled q.1 = false ∧
      (q.1 ≠ Opcode.verIf ∧ q.1 ≠ Opcode.verNotIf) ∧ q.1.isConditional = false := by decide
  obtain ⟨before, after, hsplit, -⟩ := List.lookup_eq_some_iff.1 hh
  refine hall (op, h) ?_
  rw [hsplit]
  exact List.mem_append_right before List.mem_cons_self

lemma Profile.runOpcode_lock (hp : p = .bitcoin ∨ p = .clams) {op : Opcode} {h : NamedHandler}
    (hh : OpcodeTable.timeLocked.handler? op = some h) (m : Machine) (s : Setting) (phase : Phase)
    (script : Script) (offset : Nat) : m.runOpcode ⟨p.opcodes, s, phase, script⟩ op offset =
      (if m.executing then h.run s (p.opcodes.name op) m.stack
        else .ok s!"{p.opcodes.name op} (not executed)", m) := by
  have htable : p.opcodes = .timeLocked := by
    rcases hp with rfl | rfl <;> rfl
  obtain ⟨hdisabled, hver, hplain⟩ := OpcodeTable.timeLocked_handlers hh
  rw [htable]
  exact Machine.runOpcode_of_handler hdisabled hver hplain hh offset

namespace TimeLock

variable {s : Setting}

/-! ### Absolute locks -/

/-- What an absolute lock asks of the transaction, of its input and of the chain. -/
def AbsoluteLock (s : Setting) (n : Nat) : Prop :=
  ∃ tx ∈ s.tx?, ∃ lockTime : Nat,
    tx.record.int? FieldName.lockTime = some (lockTime : Int) ∧
    (n < 500000000 ↔ lockTime < 500000000) ∧ n ≤ lockTime ∧
    (∃ input ∈ tx.inputs[s.input]?, ∃ seq : Nat,
      input.int? FieldName.sequence = some (seq : Int) ∧ seq ≠ 0xffffffff) ∧
    ∀ c ∈ s.chain?, lockTime ≤ if lockTime < 500000000 then c.height else c.time

/-- **What an absolute lock asks for** on both networks. Where the rule is in force, the top item is
a number that is not negative, of at most five bytes; the transaction's lock time is in the same
unit and no earlier; the input is there and not final; and the chain, if it is known, has reached
the lock time. Both stacks stay as they are, whatever comes of it. -/
theorem run_checkLockTime_iff (hp : p = .bitcoin ∨ p = .clams)
    (htx : ∀ tx ∈ s.tx?, tx.record.WellFormed p.schemas .transaction) (name : String)
    (stack : Stack) :
    ((∃ log, NamedHandler.checkLockTime.run s name stack = .ok log) ↔
      s.flags.has Flags.checkLockTime = false ∨
        ∃ n, Operand stack n ∧ AbsoluteLock s n) ∧
    ∀ (m : Machine) (phase : Phase) (script : Script) (offset : Nat),
      m.runOpcode ⟨p.opcodes, s, phase, script⟩ Opcode.checkLockTimeVerify offset =
        (if m.executing then
            NamedHandler.checkLockTime.run s (p.opcodes.name Opcode.checkLockTimeVerify) m.stack
          else .ok s!"{p.opcodes.name Opcode.checkLockTimeVerify} (not executed)", m) := by
  have hset := Profile.lockable hp
  refine ⟨?_, fun m => Profile.runOpcode_lock hp rfl m s⟩
  cases hflag : s.flags.has Flags.checkLockTime with
  | false => exact iff_of_true (NamedHandler.run_off _ hflag) (.inl rfl)
  | true =>
    -- the threshold is an integer in the handler and a number here
    have hunit (n : Nat) : (n : Int) < threshold ↔ n < 500000000 := by
      unfold threshold
      omega
    have hreached (c : ChainState) (lockTime : Nat) :
        reached c lockTime = if lockTime < 500000000 then c.height else c.time := by
      unfold reached
      simp only [hunit]
    rw [or_iff_right nofun]
    refine (exists_checkLockTime_iff hflag).trans ?_
    constructor
    · rintro ⟨n, hn, tx, hmem, hside, hle, seq, hseq, hfinal, hchain⟩
      have hr := htx tx hmem
      obtain ⟨input, hinput, hfield⟩ := (Transaction.inputSequence_eq_ok_iff hset hr).1 hseq
      rw [hunit, hunit] at hside
      refine ⟨n, operand_eq_ok.1 hn, tx, hmem, tx.lockTime, Transaction.int?_lockTime hset hr,
        hside, hle, ⟨input, hinput, seq, hfield, hfinal⟩, fun c hc => ?_⟩
      rw [← hreached]
      exact hchain c hc
    · rintro ⟨n, hn, tx, hmem, lockTime, hlock, hside, hle, ⟨input, hinput, seq, hfield, hfinal⟩,
        hchain⟩
      have hr := htx tx hmem
      have hseq := (Transaction.inputSequence_eq_ok_iff hset hr).2 ⟨input, hinput, hfield⟩
      rw [Transaction.int?_lockTime hset hr, Option.some.injEq, Int.ofNat_inj] at hlock
      subst hlock
      rw [← hunit n, ← hunit tx.lockTime] at hside
      refine ⟨n, operand_eq_ok.2 hn, tx, hmem, hside, hle, seq, hseq, hfinal, fun c hc => ?_⟩
      rw [hreached]
      exact hchain c hc

/-- A transaction that is locked until a time, with one input that is locked for sixteen units of
time after what it spends. -/
def locked : Transaction :=
  ⟨.mk Standard.clams .transaction
    [some (.int 2), some (.uint 7),
     some (.records [.mk Standard.clams .txIn
       [some (.record (.mk Standard.clams .outPoint [some (.hash Hash256.zero), some (.uint 0)])),
        some (.script .empty), some (.uint 0x400010)]]),
     some (.records []), some (.uint 1500000000), some (.bytes [0x68, 0x69])]⟩

lemma locked_wellFormed : locked.record.WellFormed Profile.clams.schemas .transaction := by
  have hread : Record.deserialize Standard.clams .transaction locked.serialize =
      .ok locked.record := rfl
  exact (Record.Reachable.deserialize hread).wellFormed

lemma setting_wellFormed (chain? : Option ChainState) :
    ∀ tx ∈ (Setting.mk (some locked) 0 Flags.standard chain?).tx?,
      tx.record.WellFormed Profile.clams.schemas .transaction := by
  rintro tx ⟨⟩
  exact locked_wellFormed

theorem run_checkLockTime_locked :
    (∀ tx ∈ (Setting.mk (some locked) 0 Flags.standard (some ⟨0, 1500000000⟩)).tx?,
      tx.record.WellFormed Profile.clams.schemas .transaction) ∧
    (∃ log, NamedHandler.checkLockTime.run ⟨some locked, 0, Flags.standard, some ⟨0, 1500000000⟩⟩
      "OP_CHECKLOCKTIMEVERIFY" [[0x00, 0x2f, 0x68, 0x59, 0x00], [0x01]] = .ok log) ∧
    ¬ ∃ log, NamedHandler.checkLockTime.run ⟨some locked, 0, Flags.standard, some ⟨0, 1499999999⟩⟩
      "OP_CHECKLOCKTIMEVERIFY" [[0x00, 0x2f, 0x68, 0x59, 0x00], [0x01]] = .ok log := by
  have hfield : locked.record.int? FieldName.lockTime = some ((1500000000 : Nat) : Int) := rfl
  refine ⟨setting_wellFormed _, ?_, fun h => ?_⟩
  · refine (run_checkLockTime_iff (.inr rfl) (setting_wellFormed _) _ _).1.2 (.inr ?_)
    refine ⟨1500000000, ⟨_, _, rfl, by decide, by decide⟩, locked, rfl, 1500000000, hfield,
      by decide, by decide, ⟨_, rfl, 0x400010, rfl, by decide⟩, ?_⟩
    rintro c ⟨⟩
    decide
  · rcases (run_checkLockTime_iff (.inr rfl) (setting_wellFormed _) _ _).1.1 h with
      hoff | ⟨n, -, tx, hmem, lockTime, hlock, -, -, -, hchain⟩
    · cases hoff
    · cases hmem
      rw [hfield, Option.some.injEq, Int.ofNat_inj] at hlock
      subst hlock
      have hlate := hchain ⟨0, 1499999999⟩ rfl
      revert hlate
      decide

/-! ### Relative locks -/

/-- What a relative lock asks of the transaction and of its input. -/
def RelativeLock (s : Setting) (n : Nat) : Prop :=
  ∃ tx ∈ s.tx?, ∃ version, tx.record.int? FieldName.version = some version ∧ 2 ≤ version ∧
    ∃ input ∈ tx.inputs[s.input]?, ∃ seq : Nat,
      input.int? FieldName.sequence = some (seq : Int) ∧ seq.testBit 31 = false ∧
      n.testBit 22 = seq.testBit 22 ∧ n &&& 0xffff ≤ seq &&& 0xffff

lemma exists_run_checkSequence_iff (hp : p = .bitcoin ∨ p = .clams)
    (htx : ∀ tx ∈ s.tx?, tx.record.WellFormed p.schemas .transaction) (name : String)
    (stack : Stack) :
    (∃ log, NamedHandler.checkSequence.run s name stack = .ok log) ↔
      s.flags.has Flags.checkSequence = false ∨
        ∃ n, Operand stack n ∧ (n.testBit 31 = true ∨ RelativeLock s n) := by
  have hset := Profile.lockable hp
  cases hflag : s.flags.has Flags.checkSequence with
  | false => exact iff_of_true (NamedHandler.run_off _ hflag) (.inl rfl)
  | true =>
    rw [or_iff_right nofun]
    refine (exists_checkSequence_iff hflag).trans ?_
    refine exists_congr fun n => and_congr operand_eq_ok ?_
    rw [and_disableBit_eq_zero_iff]
    cases n.testBit 31 with
    | true => exact iff_of_true nofun (.inl rfl)
    | false =>
      rw [forall_prop_of_true rfl, or_iff_right Bool.false_ne_true]
      refine exists_congr fun tx => and_congr_right fun hmem => ?_
      have hr := htx tx hmem
      constructor
      · rintro ⟨hversion, seq, hseq, hon, hmeasure, hle⟩
        obtain ⟨input, hinput, hfield⟩ := (Transaction.inputSequence_eq_ok_iff hset hr).1 hseq
        exact ⟨tx.version, Transaction.int?_version hset hr, hversion, input, hinput, seq, hfield,
          and_disableBit_eq_zero_iff.1 hon, and_typeBit_inj.1 hmeasure, hle⟩
      · rintro ⟨version, hfield, hversion, input, hinput, seq, hsequence, hon, hmeasure, hle⟩
        rw [Transaction.int?_version hset hr, Option.some.injEq] at hfield
        subst hfield
        exact ⟨hversion, seq,
          (Transaction.inputSequence_eq_ok_iff hset hr).2 ⟨input, hinput, hsequence⟩,
          and_disableBit_eq_zero_iff.2 hon, and_typeBit_inj.2 hmeasure, hle⟩

lemma and_valueMask_congr {n n' : Nat} (h : ∀ i < 16, n.testBit i = n'.testBit i) :
    n &&& valueMask = n' &&& valueMask := by
  rw [and_valueMask, and_valueMask]
  refine Nat.eq_of_testBit_eq fun i => ?_
  rw [Nat.testBit_mod_two_pow, Nat.testBit_mod_two_pow]
  by_cases hi : i < 16
  · rw [h i hi]
  · simp [hi]

/-- **What a relative lock asks for** on both networks. Where the rule is in force, the top item is
a number that is not negative, of at most five bytes. Unless its bit 31 is set, the transaction's
version is at least 2, the input is there, bit 31 of its sequence is clear, bit 22 is that of the
number, and the low sixteen bits are no less than those of the number. No other bits of the number
matter, and both stacks stay as they are, whatever comes of it. -/
theorem run_checkSequence_iff (hp : p = .bitcoin ∨ p = .clams)
    (htx : ∀ tx ∈ s.tx?, tx.record.WellFormed p.schemas .transaction) (name : String) :
    (∀ stack : Stack, (∃ log, NamedHandler.checkSequence.run s name stack = .ok log) ↔
      s.flags.has Flags.checkSequence = false ∨
        ∃ n, Operand stack n ∧ (n.testBit 31 = true ∨ RelativeLock s n)) ∧
    (∀ (stack stack' : Stack) (n n' : Nat), Operand stack n → Operand stack' n' →
      (∀ i, i < 16 ∨ i = 22 ∨ i = 31 → n.testBit i = n'.testBit i) →
      ((∃ log, NamedHandler.checkSequence.run s name stack = .ok log) ↔
        ∃ log, NamedHandler.checkSequence.run s name stack' = .ok log)) ∧
    ∀ (m : Machine) (phase : Phase) (script : Script) (offset : Nat),
      m.runOpcode ⟨p.opcodes, s, phase, script⟩ Opcode.checkSequenceVerify offset =
        (if m.executing then
            NamedHandler.checkSequence.run s (p.opcodes.name Opcode.checkSequenceVerify) m.stack
          else .ok s!"{p.opcodes.name Opcode.checkSequenceVerify} (not executed)", m) := by
  refine ⟨exists_run_checkSequence_iff hp htx name, ?_,
    fun m => Profile.runOpcode_lock hp rfl m s⟩
  intro stack stack' n n' hn hn' hbits
  have hlength : n &&& 0xffff = n' &&& 0xffff :=
    and_valueMask_congr fun i hi => hbits i (.inl hi)
  have hmeasure := hbits 22 (.inr (.inl rfl))
  have hdisable := hbits 31 (.inr (.inr rfl))
  have hlock : RelativeLock s n ↔ RelativeLock s n' := by
    unfold RelativeLock
    rw [hlength, hmeasure]
  rw [exists_run_checkSequence_iff hp htx, exists_run_checkSequence_iff hp htx, hn.exists_iff,
    hn'.exists_iff, hdisable, hlock]

/-- A lock of sixteen units of time passes whatever bits of its fifth byte are set, and one of
seventeen does not. -/
theorem run_checkSequence_locked :
    (∀ tx ∈ (Setting.mk (some locked) 0 Flags.standard none).tx?,
      tx.record.WellFormed Profile.clams.schemas .transaction) ∧
    (∃ log, NamedHandler.checkSequence.run ⟨some locked, 0, Flags.standard, none⟩
      "OP_CHECKSEQUENCEVERIFY" [[0x10, 0x00, 0x40]] = .ok log) ∧
    (∃ log, NamedHandler.checkSequence.run ⟨some locked, 0, Flags.standard, none⟩
      "OP_CHECKSEQUENCEVERIFY" [[0x10, 0x00, 0x40, 0x00, 0x7f]] = .ok log) ∧
    ¬ ∃ log, NamedHandler.checkSequence.run ⟨some locked, 0, Flags.standard, none⟩
      "OP_CHECKSEQUENCEVERIFY" [[0x11, 0x00, 0x40]] = .ok log := by
  obtain ⟨hrule, hbits, -⟩ := run_checkSequence_iff (.inr rfl) (setting_wellFormed none)
    "OP_CHECKSEQUENCEVERIFY"
  have hshort : Operand [[0x10, 0x00, 0x40]] 0x400010 := ⟨_, _, rfl, by decide, by decide⟩
  have hwide : Operand [[0x10, 0x00, 0x40, 0x00, 0x7f]] 0x7f00400010 :=
    ⟨_, _, rfl, by decide, by decide⟩
  have hlong : Operand [[0x11, 0x00, 0x40]] 0x400011 := ⟨_, _, rfl, by decide, by decide⟩
  have hpasses := (hrule [[0x10, 0x00, 0x40]]).2 (.inr ⟨_, hshort, .inr ⟨locked, rfl, 2, rfl,
    by decide, _, rfl, 0x400010, rfl, by decide, by decide, by decide⟩⟩)
  refine ⟨setting_wellFormed none, hpasses, (hbits _ _ _ _ hshort hwide ?_).1 hpasses, fun h => ?_⟩
  · rintro i (hi | rfl | rfl)
    · revert i
      decide
    · decide
    · decide
  · rcases (hrule _).1 h with hoff | ⟨n, hn, hrest⟩
    · cases hoff
    · obtain rfl := hn.unique hlong
      rcases hrest with hset | ⟨tx, hmem, -, -, -, input, hinput, seq, hseq, -, -, hle⟩
      · cases hset
      · cases hmem
        cases hinput
        cases hseq
        revert hle
        decide

end TimeLock

end CoinScript
