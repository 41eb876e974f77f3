import CoinScript.Proofs.Machine.Metered
import CoinScript.Proofs.Number
import CoinScript.Proofs.Opcode.Handlers

/-!
How long the items on the stacks become.

Where the splice, bitwise and wide arithmetic opcodes are disabled, an effect copies items, cuts
them down to a digest or a truth value, or puts a number in their place that takes one byte more
than they do at most. Such an opcode stands above the pushes, so it counts towards the limit on
operations, and in a whole run no item becomes longer by more bytes than that limit.
-/

namespace CoinScript

/-- All items are at most so long. -/
def Stack.Fits (s : Stack) (n : Nat) : Prop := ∀ a ∈ s, a.length ≤ n

namespace Stack

variable {s t : Stack} {a : Bytes} {n k : Nat}

lemma Fits.mono (h : s.Fits n) (hle : n ≤ k) : s.Fits k := fun a ha => Nat.le_trans (h a ha) hle

lemma Fits.of_subset (h : s.Fits n) (hsub : t ⊆ s) : t.Fits n := fun a ha => h a (hsub ha)

lemma fits_nil : Fits [] n := fun a ha => by cases ha

lemma fits_cons : Fits (a :: s) n ↔ a.length ≤ n ∧ s.Fits n := List.forall_mem_cons

lemma fits_append : Fits (s ++ t) n ↔ s.Fits n ∧ t.Fits n := List.forall_mem_append

end Stack

/-! ### Effects -/

/-- Whether an effect that succeeds makes items longer by one byte at most, from the largest size of
a push on, where no more items are left than the limit allows. -/
def Effect.Grows (e : Effect) : Prop :=
  ∀ (n : Nat) (s : Stack) (log : String) (left : Stack), maxItemSize ≤ n → s.Fits n →
    e s = (.ok log, left) → left.length ≤ maxStackSize → left.Fits (n + 1)

namespace Effect

variable {name : String}

lemma grows_one {f : Bytes → Reply}
    (h : ∀ n a, maxItemSize ≤ n → a.length ≤ n → Stack.Fits (f a).2 (n + 1)) :
    (one name f).Grows := by
  intro n s log left hn hs heq _
  rcases s with - | ⟨a, s⟩
  · cases heq
  · obtain ⟨ha, hs⟩ := Stack.fits_cons.1 hs
    simp only [one, Prod.mk.injEq] at heq
    rw [← heq.2]
    exact Stack.fits_append.2 ⟨h n a hn ha, hs.mono (Nat.le_succ n)⟩

lemma grows_two {f : Bytes → Bytes → Reply}
    (h : ∀ n a b, maxItemSize ≤ n → a.length ≤ n → b.length ≤ n →
      Stack.Fits (f a b).2 (n + 1)) : (two name f).Grows := by
  intro n s log left hn hs heq _
  rcases s with - | ⟨a, - | ⟨b, s⟩⟩
  · cases heq
  · cases heq
  · obtain ⟨ha, hs⟩ := Stack.fits_cons.1 hs
    obtain ⟨hb, hs⟩ := Stack.fits_cons.1 hs
    simp only [two, Prod.mk.injEq] at heq
    rw [← heq.2]
    exact Stack.fits_append.2 ⟨h n a b hn ha hb, hs.mono (Nat.le_succ n)⟩

lemma fits_verdict (verify value : Bool) (log : String) {n : Nat} :
    Stack.Fits (Reply.verdict name verify value log).2 (n + 1) := by
  have hle : (Number.ofBool value).length ≤ n + 1 :=
    Nat.le_trans (Number.length_ofBool_le value) (Nat.le_add_left 1 n)
  cases verify with
  | false => exact Stack.fits_cons.2 ⟨hle, Stack.fits_nil⟩
  | true => cases value <;> exact Stack.fits_nil

lemma grows_verify (name : String) : (Machine.verifyEffect name).Grows :=
  grows_one fun _ _ _ _ => fits_verdict _ _ _

lemma grows_shuffle (op : Shuffle) (name : String) : (op.effect name).Grows := by
  intro n s log left hn hs heq _
  unfold Shuffle.effect at heq
  rcases harrange : op.arrange? s with - | s'
  · rw [harrange] at heq
    cases heq
  · rw [harrange] at heq
    cases heq
    have hsub : left ⊆ s := by
      unfold Shuffle.arrange? at harrange
      split at harrange <;> cases harrange <;> intro a ha <;> simp at ha ⊢ <;> tauto
    exact (hs.of_subset hsub).mono (Nat.le_succ n)

lemma grows_ifDup (name : String) : (ifDup name).Grows := by
  refine grows_one fun n a _ ha => ?_
  have ha' : a.length ≤ n + 1 := Nat.le_succ_of_le ha
  split
  · exact Stack.fits_cons.2 ⟨ha', Stack.fits_cons.2 ⟨ha', Stack.fits_nil⟩⟩
  · exact Stack.fits_cons.2 ⟨ha', Stack.fits_nil⟩

lemma grows_depth (name : String) : (depth name).Grows := by
  intro n s log left hn hs heq hsize
  simp only [depth, Prod.mk.injEq] at heq
  obtain ⟨-, rfl⟩ := heq
  have hcount : (Number.encode s.length).length ≤ 2 := by
    refine Number.length_encode_le (by decide) ?_
    rw [Int.natAbs_natCast]
    have hroom : maxStackSize < Number.room 2 := by decide
    rw [List.length_cons] at hsize
    omega
  have htwo : 2 ≤ maxItemSize := by decide
  exact Stack.fits_cons.2 ⟨by omega, hs.mono (Nat.le_succ n)⟩

lemma grows_pick (name : String) (move : Bool) : (pick name move).Grows := by
  intro n s log left hn hs heq _
  rcases s with - | ⟨index, - | ⟨b, s⟩⟩
  · cases heq
  · cases heq
  · simp only [pick] at heq
    have hbelow : Stack.Fits (b :: s) n := (Stack.fits_cons.1 hs).2
    generalize b :: s = below at heq hbelow
    rcases hi : Number.decodeBounded? index with - | i
    · rw [hi] at heq
      cases heq
    · simp only [hi] at heq
      by_cases hneg : i < 0
      · rw [if_pos hneg] at heq
        cases heq
      · rw [if_neg hneg] at heq
        rcases ha : below[i.toNat]? with - | a
        · rw [ha] at heq
          cases heq
        · simp only [ha, Prod.mk.injEq] at heq
          rw [← heq.2]
          have hitem : a.length ≤ n := hbelow a (List.mem_of_getElem? ha)
          have hrest : Stack.Fits (if move then below.eraseIdx i.toNat else below) n := by
            cases move with
            | false => exact hbelow
            | true => exact hbelow.of_subset (List.eraseIdx_subset)
          exact Stack.fits_cons.2 ⟨Nat.le_succ_of_le hitem, hrest.mono (Nat.le_succ n)⟩

lemma grows_size (name : String) : (size name).Grows := by
  refine grows_one fun n a _ ha => ?_
  have hsize : (Number.encode a.length).length ≤ n := Number.length_encode_natCast_le ha
  exact Stack.fits_cons.2 ⟨by omega, Stack.fits_cons.2 ⟨by omega, Stack.fits_nil⟩⟩

lemma grows_equal (name : String) (verify : Bool) : (equal name verify).Grows :=
  grows_two fun _ _ _ _ _ _ => fits_verdict _ _ _

lemma grows_unary {op : UnaryOp} (hdouble : op ≠ .double) (hhalve : op ≠ .halve) (name : String) :
    (op.effect name).Grows := by
  refine grows_one fun n a hn ha => ?_
  have hpos : 0 < n := Nat.lt_of_lt_of_le (by decide) hn
  exact Stack.fits_cons.2 ⟨UnaryOp.length_encode_eval_le hdouble hhalve hpos ha, Stack.fits_nil⟩

lemma grows_binary {op : BinaryOp} (hmul : op ≠ .mul) (hdiv : op ≠ .div) (hmod : op ≠ .mod)
    (name : String) : (op.effect name).Grows := by
  refine grows_two fun n second first hn hsecond hfirst => ?_
  have hpos : 0 < n := Nat.lt_of_lt_of_le (by decide) hn
  rcases h : op.eval? (Number.decode first) (Number.decode second) with - | r
  · simp only [h]
    exact Stack.fits_nil
  · simp only [h]
    exact Stack.fits_cons.2
      ⟨BinaryOp.length_encode_eval?_le hmul hdiv hmod hpos hfirst hsecond h, Stack.fits_nil⟩

lemma grows_numEqualVerify (name : String) : (numEqualVerify name).Grows :=
  grows_two fun _ _ _ _ _ _ => fits_verdict _ _ _

lemma grows_within (name : String) : (within name).Grows := by
  intro n s log left hn hs heq _
  rcases s with - | ⟨a, - | ⟨b, - | ⟨c, s⟩⟩⟩
  · cases heq
  · cases heq
  · cases heq
  · simp only [within, three, Prod.mk.injEq] at heq
    rw [← heq.2]
    have hflag (p : Bool) : (Number.ofBool p).length ≤ n + 1 :=
      Nat.le_trans (Number.length_ofBool_le p) (Nat.le_add_left 1 n)
    have hrest : Stack.Fits s n :=
      hs.of_subset fun x hx => List.mem_cons_of_mem a (List.mem_cons_of_mem b
        (List.mem_cons_of_mem c hx))
    exact Stack.fits_cons.2 ⟨hflag _, hrest.mono (Nat.le_succ n)⟩

lemma grows_digest (op : DigestOp) (name : String) : (op.effect name).Grows := by
  refine grows_one fun n a hn _ => ?_
  have hle : (op.eval a).length ≤ maxItemSize := by
    cases op with
    | ripemd160 => rw [DigestOp.eval, Digest.length_ripemd160]; decide
    | sha1 => rw [DigestOp.eval, Digest.length_sha1]; decide
    | sha256 => rw [DigestOp.eval, Digest.length_sha256]; decide
    | hash160 => rw [DigestOp.eval, length_hash160]; decide
    | hash256 => rw [DigestOp.eval, (doubleSha256 a).size]; decide
  exact Stack.fits_cons.2 ⟨by omega, Stack.fits_nil⟩

lemma grows_checkSig (setting : Setting) (code : Script) (name : String) (verify : Bool) :
    (checkSig setting code name verify).Grows := by
  refine grows_two fun n key sig _ hkey hsig => ?_
  rcases setting.transaction name with e | tx
  · exact Stack.fits_cons.2 ⟨by omega, Stack.fits_cons.2 ⟨by omega, Stack.fits_nil⟩⟩
  · simp only
    split
    · exact Stack.fits_nil
    · exact fits_verdict _ _ _

lemma grows_checkMultisig (setting : Setting) (code : Script) (name : String) (verify : Bool)
    (keyCount : Nat) : (checkMultisig setting code name verify keyCount).Grows := by
  intro n s log left hn hs heq _
  unfold checkMultisig at heq
  rcases htake : MultisigOperands.take name keyCount s.tail with e | ops
  · rw [htake] at heq
    cases heq
  · obtain ⟨count, htail, -, -⟩ := MultisigOperands.take_eq_ok.1 htake
    have hbelow : ops.below.Fits (n + 1) := by
      refine (hs.of_subset fun a ha => List.mem_of_mem_tail ?_).mono (Nat.le_succ n)
      rw [htail]
      simp [ha]
    rcases hvalid : multisigValid setting code name ops with e | valid
    · simp only [htake, hvalid] at heq
      cases heq
    · simp only [htake, hvalid] at heq
      split at heq
      · cases heq
      · simp only [Prod.mk.injEq] at heq
        rw [← heq.2]
        exact Stack.fits_append.2 ⟨fits_verdict _ _ _, hbelow⟩

end Effect

/-- A table that disables the splice, bitwise and wide arithmetic opcodes and has no functions of
the host. -/
structure OpcodeTable.Confined (t : OpcodeTable) : Prop where
  disabled : ∀ op ∈ Opcode.standardDisabled, t.isDisabled op = true
  registered : t.Registered

namespace Machine

variable {env : Env} {m m' : Machine} {i : Instruction} {is : List Instruction} {log : String}
  {n : Nat}

/-- The items of both stacks are at most so long. -/
structure Fits (m : Machine) (n : Nat) : Prop where
  stack : m.stack.Fits n
  altstack : m.altstack.Fits n

lemma Fits.mono {k : Nat} (h : m.Fits n) (hle : n ≤ k) : m.Fits k :=
  ⟨h.stack.mono hle, h.altstack.mono hle⟩

lemma fits_onStack {e : Effect} (he : e.Grows) (hn : maxItemSize ≤ n) (hm : m.Fits n)
    (h : m.onStack e = (.ok log, m')) (hsize : m'.size ≤ maxStackSize) : m'.Fits (n + 1) := by
  obtain ⟨left, heq, rfl⟩ := onStack_eq_ok.1 h
  have hleft : left.length ≤ maxStackSize := Nat.le_trans (Nat.le_add_right _ _) hsize
  exact ⟨he n m.stack log left hn hm.stack heq hleft, hm.altstack.mono (Nat.le_succ n)⟩

lemma fits_branch {name : String} {negated : Bool} (hm : m.Fits n)
    (h : m.branch name negated = (.ok log, m')) : m'.Fits n := by
  unfold branch at h
  by_cases hexec : m.executing = true
  · rw [if_pos hexec] at h
    rcases hs : m.stack with - | ⟨a, s⟩
    · simp [hs] at h
    · simp only [hs, Prod.mk.injEq] at h
      rw [← h.2]
      have hstack := hm.stack
      rw [hs] at hstack
      exact ⟨(Stack.fits_cons.1 hstack).2, hm.altstack⟩
  · rw [if_neg hexec] at h
    cases h
    exact ⟨hm.stack, hm.altstack⟩

lemma fits_otherwise {name : String} (hm : m.Fits n)
    (h : m.otherwise name = (.ok log, m')) : m'.Fits n := by
  unfold Machine.otherwise at h
  rcases hcs : m.conditions with - | ⟨c, cs⟩ <;> rw [hcs] at h <;> cases h
  exact ⟨hm.stack, hm.altstack⟩

lemma fits_endBranch {name : String} (hm : m.Fits n)
    (h : m.endBranch name = (.ok log, m')) : m'.Fits n := by
  unfold Machine.endBranch at h
  rcases hcs : m.conditions with - | ⟨c, cs⟩ <;> rw [hcs] at h <;> cases h
  exact ⟨hm.stack, hm.altstack⟩

lemma fits_toAltstack {name : String} (hm : m.Fits n)
    (h : m.toAltstack name = (.ok log, m')) : m'.Fits n := by
  unfold Machine.toAltstack at h
  rcases hs : m.stack with - | ⟨a, s⟩ <;> rw [hs] at h <;> cases h
  have hstack := hm.stack
  rw [hs, Stack.fits_cons] at hstack
  exact ⟨hstack.2, Stack.fits_cons.2 ⟨hstack.1, hm.altstack⟩⟩

lemma fits_fromAltstack {name : String} (hm : m.Fits n)
    (h : m.fromAltstack name = (.ok log, m')) : m'.Fits n := by
  unfold Machine.fromAltstack at h
  rcases hs : m.altstack with - | ⟨a, s⟩ <;> rw [hs] at h <;> cases h
  have haltstack := hm.altstack
  rw [hs, Stack.fits_cons] at haltstack
  exact ⟨Stack.fits_cons.2 ⟨haltstack.1, hm.stack⟩, haltstack.2⟩

lemma fits_checkMultisig {name : String} {verify : Bool} (hn : maxItemSize ≤ n) (hm : m.Fits n)
    (h : m.checkMultisig env name verify = (.ok log, m')) (hsize : m'.size ≤ maxStackSize) :
    m'.Fits (n + 1) := by
  unfold Machine.checkMultisig at h
  rcases hs : m.stack with - | ⟨count, s⟩
  · simp [hs] at h
  · rcases hcount : Signature.count? count maxKeys with - | keyCount
    · simp [hs, hcount] at h
    · rcases hops : m.countOps keyCount with e | counted
      · simp [hs, hcount, hops] at h
      · simp only [hs, hcount, hops] at h
        obtain ⟨-, rfl⟩ := countOps_eq_ok.1 hops
        have hcounted : Fits { m with opCount := m.opCount + keyCount } n :=
          ⟨hm.stack, hm.altstack⟩
        exact fits_onStack (Effect.grows_checkMultisig _ _ _ _ _) hn hcounted h hsize

/-- **An effect** that is not a wide one makes items longer by one byte at most. -/
lemma fits_runBuiltin {name : String} {offset : Nat} {b : Builtin} (hn : maxItemSize ≤ n)
    (hm : m.Fits n) (hnumber : ∀ k, b ≠ .number k) (hwide : b.isWide = false)
    (h : m.runBuiltin env name offset b = (.ok log, m')) (hsize : m'.size ≤ maxStackSize) :
    m'.Fits (n + 1) := by
  have hnext {m' : Machine} (hm' : m'.Fits n) : m'.Fits (n + 1) := hm'.mono (Nat.le_succ n)
  cases b with
  | number k => exact absurd rfl (hnumber k)
  | nop =>
    cases h
    exact hnext hm
  | branch negated => exact hnext (fits_branch hm h)
  | otherwise => exact hnext (fits_otherwise hm h)
  | endBranch => exact hnext (fits_endBranch hm h)
  | verify => exact fits_onStack (Effect.grows_verify name) hn hm h hsize
  | fail => cases h
  | toAltstack => exact hnext (fits_toAltstack hm h)
  | fromAltstack => exact hnext (fits_fromAltstack hm h)
  | shuffle op => exact fits_onStack (Effect.grows_shuffle op name) hn hm h hsize
  | ifDup => exact fits_onStack (Effect.grows_ifDup name) hn hm h hsize
  | depth => exact fits_onStack (Effect.grows_depth name) hn hm h hsize
  | pick move => exact fits_onStack (Effect.grows_pick name move) hn hm h hsize
  | size => exact fits_onStack (Effect.grows_size name) hn hm h hsize
  | equal verify => exact fits_onStack (Effect.grows_equal name verify) hn hm h hsize
  | unary op =>
    have hdouble : op ≠ .double := by rintro rfl; cases hwide
    have hhalve : op ≠ .halve := by rintro rfl; cases hwide
    exact fits_onStack (Effect.grows_unary hdouble hhalve name) hn hm h hsize
  | binary op =>
    have hmul : op ≠ .mul := by rintro rfl; cases hwide
    have hdiv : op ≠ .div := by rintro rfl; cases hwide
    have hmod : op ≠ .mod := by rintro rfl; cases hwide
    exact fits_onStack (Effect.grows_binary hmul hdiv hmod name) hn hm h hsize
  | numEqualVerify => exact fits_onStack (Effect.grows_numEqualVerify name) hn hm h hsize
  | within => exact fits_onStack (Effect.grows_within name) hn hm h hsize
  | digest op => exact fits_onStack (Effect.grows_digest op name) hn hm h hsize
  | codeSeparator =>
    cases h
    exact hnext ⟨hm.stack, hm.altstack⟩
  | checkSig verify => exact fits_onStack (Effect.grows_checkSig _ _ name verify) hn hm h hsize
  | checkMultisig verify => exact fits_checkMultisig hn hm h hsize
  | shift | concat | substring | keep | invert | bitwise => cases hwide

lemma fits_number {name : String} {offset : Nat} {op : Opcode} {k : Int} (hn : maxItemSize ≤ n)
    (hm : m.Fits n) (hop : Builtin.ofOpcode? op = some (.number k))
    (h : m.runBuiltin env name offset (.number k) = (.ok log, m')) : m'.Fits n := by
  cases h
  have hle : (Number.encode k).length ≤ 1 := by
    have hsmall : k.natAbs ≤ 16 := Builtin.natAbs_le_of_number hop
    have hroom : 16 < Number.room 1 := by decide
    exact Number.length_encode_le Nat.one_pos (by omega)
  have hone : 1 ≤ maxItemSize := by decide
  exact ⟨Stack.fits_cons.2 ⟨by omega, hm.stack⟩, hm.altstack⟩

lemma fits_runOpcode {op : Opcode} {offset : Nat} (ht : env.table.Confined) (hn : maxItemSize ≤ n)
    (hm : m.Fits n) (h : m.runOpcode env op offset = (.ok log, m'))
    (hsize : m'.size ≤ maxStackSize) : m'.Fits (n + if Opcode.op16 < op then 1 else 0) := by
  obtain ⟨hallowed, -, -, ⟨-, -, rfl⟩ | ⟨-, ⟨handler, hh, hrun⟩ | ⟨-, b, hb, hrun⟩⟩⟩ :=
    runOpcode_eq_ok.1 h
  · exact hm.mono (Nat.le_add_right _ _)
  · obtain ⟨n, rfl⟩ := ht.registered op handler hh
    obtain ⟨-, rfl⟩ := runHandler_named_eq_ok.1 hrun
    exact hm.mono (Nat.le_add_right _ _)
  · by_cases hnumber : ∃ k, b = .number k
    · obtain ⟨k, rfl⟩ := hnumber
      exact (fits_number hn hm hb hrun).mono (Nat.le_add_right _ _)
    · have hwide : b.isWide = false := by
        by_contra hwide
        rw [Bool.not_eq_false] at hwide
        rw [ht.disabled op (Builtin.mem_standardDisabled hb hwide)] at hallowed
        cases hallowed
      rw [if_pos (Builtin.op16_lt hb (not_exists.1 hnumber))]
      exact fits_runBuiltin hn hm (not_exists.1 hnumber) hwide hrun hsize

/-- **An instruction** makes items longer by one byte at most, and only if it counts. -/
lemma fits_executeChecked (ht : env.table.Confined) (hn : maxItemSize ≤ n) (hm : m.Fits n)
    (h : m.executeChecked env i = (.ok log, m')) : m'.Fits (n + i.weight) := by
  obtain ⟨hexec, hsize⟩ := executeChecked_eq_ok.1 h
  rcases execute_eq_ok.1 hexec with ⟨data, -, hpush⟩ | ⟨-, counted, hcount, hrun⟩
  · unfold push at hpush
    by_cases hlong : maxItemSize < data.length
    · rw [if_pos hlong] at hpush
      cases hpush
    · rw [if_neg hlong] at hpush
      -- a push is bounded on its own, and no part of the growth
      have hstack : Stack.Fits (data :: m.stack) n :=
        Stack.fits_cons.2 ⟨Nat.le_trans (Nat.not_lt.1 hlong) hn, hm.stack⟩
      split at hpush
      · cases hpush
        exact Fits.mono ⟨hstack, hm.altstack⟩ (Nat.le_add_right _ _)
      · cases hpush
        exact hm.mono (Nat.le_add_right _ _)
  · have hcounted : counted.Fits n := by
      by_cases hop : Opcode.op16 < i.opcode
      · rw [if_pos hop] at hcount
        obtain ⟨-, rfl⟩ := countOps_eq_ok.1 hcount
        exact ⟨hm.stack, hm.altstack⟩
      · rw [if_neg hop] at hcount
        cases hcount
        exact hm
    exact fits_runOpcode ht hn hcounted hrun hsize

lemma fits_run_steps (ht : env.table.Confined) (hn : maxItemSize ≤ n) (hm : m.Fits n)
    {before after : List Step} {s : Step} (h : (run env is m).steps = before ++ s :: after) :
    (s.stack ++ s.altstack).Fits (n + (before ++ [s]).countP Step.counts) := by
  induction is generalizing m n before with
  | nil => simp [run_nil] at h
  | cons i is ih =>
    rcases hi : m.executeChecked env i with ⟨e | log, m'⟩
    · simp [run_cons_error hi] at h
    · -- the bound moves along with the instructions that count
      have hm' : m'.Fits (n + i.weight) := fits_executeChecked ht hn hm hi
      rw [run_cons_ok hi] at h
      cases before with
      | nil =>
        simp only [List.nil_append, List.cons.injEq] at h
        obtain ⟨rfl, -⟩ := h
        rw [List.nil_append, countP_stepAfter, List.countP_nil, Nat.add_zero]
        exact Stack.fits_append.2 ⟨hm'.stack, hm'.altstack⟩
      | cons b before =>
        simp only [List.cons_append, List.cons.injEq] at h
        obtain ⟨rfl, h⟩ := h
        rw [List.cons_append, countP_stepAfter, ← Nat.add_assoc]
        exact ih (Nat.le_add_right_of_le hn) hm' h

lemma fits_run (ht : env.table.Confined) (hn : maxItemSize ≤ n) (hm : m.Fits n)
    (h : (run env is m).fault? = none) :
    (run env is m).machine.Fits (n + (run env is m).steps.countP Step.counts) := by
  induction is generalizing m n with
  | nil => exact hm
  | cons i is ih =>
    rcases hi : m.executeChecked env i with ⟨e | log, m'⟩
    · simp [run_cons_error hi] at h
    · have hm' : m'.Fits (n + i.weight) := fits_executeChecked ht hn hm hi
      rw [run_cons_ok hi] at h ⊢
      rw [countP_stepAfter, ← Nat.add_assoc]
      exact ih (Nat.le_add_right_of_le hn) hm' h

end Machine

/-! ### Scripts -/

section Scripts

variable {env : Env} {stack : Stack} {n : Nat}

lemma fits_runScript_steps (ht : env.table.Confined) (hn : maxItemSize ≤ n)
    (hstack : stack.Fits n) {before after : List Step} {s : Step}
    (h : (runScript env stack).steps = before ++ s :: after) :
    (s.stack ++ s.altstack).Fits (n + (before ++ [s]).countP Step.counts) := by
  unfold runScript at h
  rcases his : env.script.instructions with e | is
  · simp [his] at h
  · rw [his] at h
    exact Machine.fits_run_steps ht hn ⟨hstack, Stack.fits_nil⟩ h

lemma fits_of_mem_steps (ht : env.table.Confined) (hn : maxItemSize ≤ n)
    (hstack : stack.Fits n) {s : Step}
    (h : s ∈ (runScript env stack).steps) : (s.stack ++ s.altstack).Fits (n + 201) := by
  obtain ⟨before, after, hsplit⟩ := List.append_of_mem h
  have hlimit := countP_counts_le env stack
  rw [hsplit, List.countP_append, List.countP_cons] at hlimit
  refine (fits_runScript_steps ht hn hstack hsplit).mono ?_
  rw [List.countP_append, List.countP_singleton]
  omega

lemma fits_runScript (ht : env.table.Confined) (hn : maxItemSize ≤ n)
    (hstack : stack.Fits n) (h : (runScript env stack).fault? = none) :
    (runScript env stack).machine.stack.Fits (n + 201) := by
  have hlimit := countP_counts_le env stack
  unfold runScript at h hlimit ⊢
  rcases his : env.script.instructions with e | is
  · exact hstack.mono (Nat.le_add_right n 201)
  · rw [his] at h hlimit
    have hfits := Machine.fits_run ht hn ⟨hstack, Stack.fits_nil⟩ h
    exact hfits.stack.mono (Nat.add_le_add_left hlimit n)

end Scripts

end CoinScript
