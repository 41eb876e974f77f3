import CoinScript.Proofs.Machine.Matching
import CoinScript.Proofs.Machine.ScriptCode
import CoinScript.Proofs.Script.Parts
import CoinScript.Proofs.SignatureHash.Checking
import CoinScript.Schema.Standard

/-!
Multiple signature checks.

Signatures are checked for what follows the last separator that ran, without their own pushes. The
keys and signatures lie on the stack behind their numbers, in whatever way these are written, and
are tried from the top; whether there is a matching in order does not depend on the end from which
one looks. The check takes them all off, with their numbers and one item more.
-/

namespace CoinScript

open SignatureHash

namespace Machine

variable {env : Env} {i : Instruction} {is front rest : List Instruction} {m m' : Machine}

/-! ### What is signed -/

/-- How many of some instructions come up to the last one that runs as a separator, that one
included. -/
def passed (env : Env) : List Instruction → Machine → Nat
  | [], _ => 0
  | i :: is, m =>
    match m.after env i with
    | .error _ => 0
    | .ok m' =>
      if 0 < passed env is m' then passed env is m' + 1
      else if m.separates env i then 1 else 0

lemma passed_cons (h : m.after env i = .ok m') : passed env (i :: is) m =
    if 0 < passed env is m' then passed env is m' + 1
    else if m.separates env i then 1 else 0 := by
  rw [passed, h]

lemma codeStart_afterAll {offset : Nat} (hlaid : Script.Laid offset is)
    (h : m.afterAll env is = .ok m') : m'.codeStart =
      if 0 < passed env is m then offset + spanOf (is.take (passed env is m))
      else m.codeStart := by
  induction is generalizing m offset with
  | nil =>
    cases h
    rfl
  | cons i is ih =>
    rw [afterAll_cons] at h
    obtain ⟨m₁, hfirst, hrest⟩ := Except.bind_eq_ok.1 h
    obtain ⟨rfl, hlaid⟩ := hlaid
    rw [ih hlaid hrest, passed_cons hfirst, codeStart_after hfirst]
    -- a later separator overrides whatever this instruction has done
    by_cases hlater : 0 < passed env is m₁
    · simp only [if_pos hlater, if_pos (Nat.succ_pos _), List.take_succ_cons, spanOf_cons]
      omega
    · rw [if_neg hlater, if_neg hlater]
      cases m.separates env i with
      | true => simp [spanOf_cons]
      | false => simp

/-- **What is signed** is what comes behind the last separator that ran. -/
lemma code_afterAll {stack : Stack} (hscript : env.script.instructions = .ok (front ++ rest))
    (h : Machine.afterAll { stack := stack } env front = .ok m) : m.code env =
      ⟨(front.drop (passed env front { stack := stack }) ++ rest).flatMap Instruction.encode⟩ := by
  set k := passed env front { stack := stack } with hk
  have hlaid := (Script.instructions_eq_ok_iff.1 hscript).2.1.left
  have hstart : m.codeStart = spanOf (front.take k) := by
    rw [codeStart_afterAll hlaid h, ← hk, Nat.zero_add]
    split
    · rfl
    next hnone =>
      rw [Nat.eq_zero_of_not_pos hnone]
      rfl
  rw [← List.take_append_drop k front, List.append_assoc] at hscript
  rw [code, hstart, Script.drop_spanOf hscript]

lemma strip_code {stack : Stack} (sigs : List Bytes)
    (hscript : env.script.instructions = .ok (front ++ rest))
    (hfront : Machine.afterAll { stack := stack } env front = .ok m) :
    Signature.strip (m.code env) sigs.reverse = .ok ⟨(Signature.unsigned sigs
      (front.drop (passed env front { stack := stack }) ++ rest)).flatMap Instruction.encode⟩ := by
  have hproper := (Script.instructions_eq_ok_iff.1 hscript).2.2
  rw [code_afterAll hscript hfront, Signature.strip_flatMap]
  · simp only [Signature.unsigned, List.any_reverse]
  · intro j hj
    refine hproper j ?_
    rcases List.mem_append.1 hj with hj | hj
    · exact List.mem_append_left _ (List.mem_of_mem_drop hj)
    · exact List.mem_append_right _ hj

/-! ### What is taken off the stack -/

/-- An opcode runs with its own effect: it is neither disabled nor skipped, and has no handler. -/
structure RunsAs (m : Machine) (env : Env) (i : Instruction) (b : Builtin) : Prop where
  enabled : env.table.isDisabled i.opcode = false
  running : m.executing = true
  own : env.table.handler? i.opcode = none
  effect : Builtin.ofOpcode? i.opcode = some b

lemma count?_of_decode {b : Bytes} {n most : Nat} (hb : Number.decode b = n) (hn : n ≤ most)
    (hmost : most ≤ maxKeys) : Signature.count? b most = some n := by
  have hmost' : most ≤ 20 := hmost
  have hbounded : Number.decodeBounded? b = some n := by
    unfold Number.decodeBounded?
    rw [hb]
    exact if_pos (by omega)
  unfold Signature.count?
  rw [hbounded]
  exact if_pos (show 0 ≤ (n : Int) ∧ (n : Int) ≤ most by omega)

variable {b : Builtin} {verify : Bool} {sigs keys : List Bytes} {keyCount sigCount dummy : Bytes}
  {below : Stack}

lemma RunsAs.above (hruns : m.RunsAs env i b) (hb : ∀ n, b ≠ .number n) (hproper : i.IsProper) :
    i.data? = none ∧ Opcode.op16 < i.opcode := by
  have hop : Opcode.op16 < i.opcode := Builtin.op16_lt hruns.effect hb
  refine ⟨?_, hop⟩
  rw [← Option.isNone_iff_eq_none, ← Option.not_isSome, Bool.not_eq_true', ← Bool.not_eq_true,
    hproper.isSome_iff, UInt8.not_le]
  exact UInt8.lt_trans (show Opcode.push4 < Opcode.op16 by decide) hop

lemma execute_of_runsAs (hruns : m.RunsAs env i b) (hb : ∀ n, b ≠ .number n)
    (hproper : i.IsProper) : m.execute env i =
      if maxOps < m.opCount + 1 then (.error (.opCountExceeded maxOps), m)
      else { m with opCount := m.opCount + 1 }.runBuiltin env (env.table.name i.opcode)
        i.offset b := by
  obtain ⟨hd, hop⟩ := hruns.above hb hproper
  -- these two opcodes are refused, but they have no effect of their own either
  have hver : ¬ (i.opcode = Opcode.verIf ∨ i.opcode = Opcode.verNotIf) := by
    have hnone : Builtin.ofOpcode? Opcode.verIf = none ∧
        Builtin.ofOpcode? Opcode.verNotIf = none := by decide
    have heffect := hruns.effect
    rintro (ho | ho)
    · rw [ho, hnone.1] at heffect
      cases heffect
    · rw [ho, hnone.2] at heffect
      cases heffect
  have hexec : ({ m with opCount := m.opCount + 1 } : Machine).executing = true := hruns.running
  unfold execute countOps
  simp only [hd, hop, if_true]
  split
  next hcount =>
    split at hcount <;> cases hcount
    next hops => rw [if_pos hops]
  next hcount =>
    split at hcount <;> cases hcount
    next hops =>
      unfold runOpcode
      simp only [hops, if_false, hruns.enabled, Bool.false_eq_true, hver, hexec, Bool.not_true,
        Bool.false_and, hruns.own, hruns.effect]

lemma effect_checkMultisig {setting : Setting} {script : Script} {name : String} {valid : Bool}
    {ops : MultisigOperands} {s : Stack} {n : Nat} (verify : Bool)
    (htake : MultisigOperands.take name n s.tail = .ok ops)
    (hvalid : Effect.multisigValid setting script name ops = .ok valid) :
    Effect.checkMultisig setting script name verify n s =
      if setting.flags.has Flags.nullDummy && !ops.dummy.isEmpty then
        (.error (.stackOperation (.dummyNotEmpty name)), ops.below)
      else
        let reply := Reply.verdict name verify valid
          (s!"{name}: {ops.signatures.length} of {ops.keys.length} signature(s) "
            ++ Signature.word valid)
        (reply.1, reply.2 ++ ops.below) := by
  unfold Effect.checkMultisig
  rw [htake]
  simp only [hvalid]

lemma checkMultisig_eq {name : String} {n : Nat} (hstack : m.stack = keyCount :: below)
    (hkeys : Signature.count? keyCount maxKeys = some n) :
    m.checkMultisig env name verify =
      if maxOps < m.opCount + n then (.error (.opCountExceeded maxOps), m)
      else { m with opCount := m.opCount + n }.onStack
        (Effect.checkMultisig env.setting (m.code env) name verify n) := by
  rcases m with ⟨stack, altstack, conditions, opCount, codeStart⟩
  cases hstack
  unfold checkMultisig countOps
  simp only [hkeys]
  by_cases hops : maxOps < opCount + n
  · simp only [if_pos hops]
  · simp only [if_neg hops]
    rfl

lemma execute_multisig {n : Nat} (hruns : m.RunsAs env i (.checkMultisig verify))
    (hproper : i.IsProper) (hstack : m.stack = keyCount :: below)
    (hkeys : Signature.count? keyCount maxKeys = some n) :
    (m.opCount + 1 + n ≤ maxOps → m.execute env i =
      { m with opCount := m.opCount + 1 + n }.onStack
        (Effect.checkMultisig env.setting (m.code env) (env.table.name i.opcode) verify n)) ∧
    (maxOps < m.opCount + 1 + n →
      ∃ m', m.execute env i = (.error (.opCountExceeded maxOps), m')) := by
  have hexec := execute_of_runsAs hruns (fun n => nofun) hproper
  have hcheck : { m with opCount := m.opCount + 1 }.checkMultisig env
      (env.table.name i.opcode) verify = _ := checkMultisig_eq hstack hkeys
  constructor
  · intro hspent
    rw [hexec, if_neg (by omega)]
    refine hcheck.trans ?_
    rw [if_neg (by exact Nat.not_lt.2 hspent)]
    rfl
  · intro hspent
    rw [hexec]
    by_cases hfirst : maxOps < m.opCount + 1
    · rw [if_pos hfirst]
      exact ⟨_, rfl⟩
    · rw [if_neg hfirst]
      exact ⟨_, hcheck.trans (if_pos hspent)⟩

lemma take_operands {name : String} (hsigs : Number.decode sigCount = sigs.length)
    (hle : sigs.length ≤ keys.length) (hmax : keys.length ≤ maxKeys) :
    MultisigOperands.take name keys.length
        (keys.reverse ++ sigCount :: (sigs.reverse ++ dummy :: below)) =
      .ok ⟨keys.reverse, sigs.reverse, dummy, below⟩ := by
  refine MultisigOperands.take_eq_ok.2 ⟨sigCount, rfl, List.length_reverse, ?_⟩
  rw [List.length_reverse]
  exact count?_of_decode hsigs hle hmax

lemma refused_dummy {flags : Flags} : (flags.has Flags.nullDummy && !dummy.isEmpty) = true ↔
    ¬ (flags.has Flags.nullDummy = true → dummy = []) := by
  rw [Bool.and_eq_true, Bool.not_eq_true', ← Bool.not_eq_true, List.isEmpty_iff, Classical.not_imp]

/-! ### Matchings -/

/-- **A multiple check accepts the matchings in order.** It runs after some instructions of a
script, with keys and signatures on the stack in the order in which they were pushed, and is
written with what comes behind the last separator that ran, without the pushes of the signatures.
If no check that is tried has a fault, then each key is tried once at most, and the outcome is true
exactly if the signatures can be given keys that fit them in the same order. The check succeeds
unless there are too many operations or a dummy that a rule forbids, or it verifies and the outcome
is false; all operands are taken off, and the outcome is put in their place or verified. -/
theorem execute_checkMultisig {initial : Stack} {tx : Transaction}
    (hscript : env.script.instructions = .ok (front ++ i :: rest))
    (hfront : Machine.afterAll { stack := initial } env front = .ok m)
    (hruns : m.RunsAs env i (.checkMultisig verify)) (htx : env.setting.tx? = some tx)
    (hstack : m.stack = keyCount :: (keys.reverse ++ sigCount :: (sigs.reverse ++ dummy :: below)))
    (hkeys : Number.decode keyCount = keys.length) (hsigs : Number.decode sigCount = sigs.length)
    (hle : sigs.length ≤ keys.length) (hmax : keys.length ≤ maxKeys) :
    let signed := Signature.unsigned sigs
      (front.drop (passed env front { stack := initial }) ++ i :: rest)
    let check := fun sig key =>
      checkSignature sig key ⟨signed.flatMap Instruction.encode⟩ tx env.setting.input
    let tried := Signature.tried check sigs.reverse keys.reverse
    let name := env.table.name i.opcode
    let spent := m.opCount + 1 + keys.length
    let allowed := spent ≤ maxOps ∧ (env.setting.flags.has Flags.nullDummy = true → dummy = [])
    (∀ p ∈ tried, ∃ valid, check p.1 p.2 = .ok valid) →
    tried.map Prod.snd <+: keys.reverse ∧
    ∃ valid : Bool,
      Effect.multisigValid env.setting (m.code env) name
        ⟨keys.reverse, sigs.reverse, dummy, below⟩ = .ok valid ∧
      (valid = true ↔ ∃ f : Fin sigs.length → Fin keys.length, StrictMono f ∧
        ∀ j, check (sigs.get j) (keys.get (f j)) = .ok true) ∧
      (allowed → m.execute env i =
        if verify then
          (if valid then .ok s!"{name}: passed" else .error (.verifyFailed (.falseValue name)),
            { m with stack := below, opCount := spent })
        else
          (.ok (s!"{name}: {sigs.length} of {keys.length} signature(s) " ++ Signature.word valid),
            { m with stack := Number.ofBool valid :: below, opCount := spent })) ∧
      (¬ allowed → ∃ e m', m.execute env i = (.error e, m')) := by
  intro signed check tried name spent allowed hchecked
  have hproper := (Script.instructions_eq_ok_iff.1 hscript).2.2
  obtain ⟨valid, hvalid⟩ := Signature.exists_matchAll hchecked
  have hstrip : Signature.strip (m.code env) sigs.reverse =
      .ok ⟨signed.flatMap Instruction.encode⟩ := strip_code sigs hscript hfront
  set ops : MultisigOperands := ⟨keys.reverse, sigs.reverse, dummy, below⟩ with hops
  have hmultisig : Effect.multisigValid env.setting (m.code env) name ops = .ok valid := by
    unfold Effect.multisigValid Setting.transaction
    rw [htx]
    simp only [Except.ok_bind, hops, hstrip]
    exact hvalid
  have htake : MultisigOperands.take name keys.length m.stack.tail = .ok ops := by
    rw [hstack]
    exact take_operands hsigs hle hmax
  have heffect := effect_checkMultisig verify htake hmultisig
  obtain ⟨hwithin, hexcess⟩ := execute_multisig hruns (hproper i (by simp)) hstack
    (count?_of_decode hkeys hmax (Nat.le_refl _))
  refine ⟨Signature.tried_prefix _ _, valid, hmultisig, ?_, ?_, ?_⟩
  · -- keys and signatures are tried from the top of the stack, so the matching is turned round
    rw [Signature.matchAll_iff hvalid, Signature.matches_reverse,
      Signature.matches_iff_strictMono]
  · rintro ⟨hspent, hdummy⟩
    have hallowed := mt refused_dummy.1 (not_not_intro hdummy)
    rw [hops, Bool.eq_false_of_not_eq_true hallowed] at heffect
    rw [hwithin hspent, onStack, heffect]
    simp only [Bool.false_eq_true, if_false, List.length_reverse]
    cases verify <;> cases valid <;> rfl
  · intro hnot
    -- too many operations are a fault before the dummy is looked at
    rcases Nat.lt_or_ge maxOps spent with hspent | hspent
    · obtain ⟨m', hfault⟩ := hexcess hspent
      exact ⟨_, m', hfault⟩
    · have hrefused := refused_dummy.2 fun hdummy => hnot ⟨hspent, hdummy⟩
      rw [hops, hrefused] at heffect
      rw [hwithin hspent, onStack, heffect]
      exact ⟨_, _, rfl⟩

/-- A separator, and a check of what is signed behind it. -/
def signedOnce : Env where
  table := OpcodeTable.timeLocked
  setting := { tx? := some PlainTransaction.twofold.transaction, input := 1, flags := ⟨0xffffffff⟩ }
  phase := .standalone
  script := ⟨[0xab, 0xae]⟩

/-- Two keys and a signature lie on the stack behind their numbers. -/
def signedOnceLeft (key signature : Bytes) : Machine where
  stack := [[2], [1, 2], key, [1], signature, [], [3]]
  opCount := 1
  codeStart := 1

lemma exists_signedOnce : ∃ z key signature,
    digest ⟨[0xae]⟩ PlainTransaction.twofold.transaction 1 ⟨0x83⟩ = .ok z ∧
      publicKey ones = .ok key ∧ signDigest ones z ⟨0x83⟩ = .ok signature ∧
      checkSignature signature key ⟨[0xae]⟩ PlainTransaction.twofold.transaction 1 = .ok true := by
  obtain ⟨z, hdigest⟩ : ∃ z,
      digest ⟨[0xae]⟩ PlainTransaction.twofold.transaction 1 ⟨0x83⟩ = .ok z :=
    Except.exists_of_isOk (by decide +kernel)
  have hlow : SighashType.lowByte ⟨0x83⟩ = ⟨0x83⟩ := by decide
  exact ⟨z, _, _, hdigest, publicKey_eq ofBytes_ones, signDigest_eq ofBytes_ones,
    checkSignature_signed (hlow.symm ▸ hdigest)⟩

/-- The second key is tried first and is none; the first one fits. -/
theorem execute_signedOnce : ∃ z key signature,
    digest ⟨[0xae]⟩ PlainTransaction.twofold.transaction 1 ⟨0x83⟩ = .ok z ∧
      publicKey ones = .ok key ∧ signDigest ones z ⟨0x83⟩ = .ok signature ∧
      (signedOnceLeft key signature).execute signedOnce ⟨0xae, none, 1⟩ =
        (.ok "OP_CHECKMULTISIG: 1 of 2 signature(s) valid",
          { signedOnceLeft key signature with stack := [[1], [3]], opCount := 4 }) := by
  obtain ⟨z, key, signature, hdigest, hkey, hsigned, hfits⟩ := exists_signedOnce
  refine ⟨z, key, signature, hdigest, hkey, hsigned, ?_⟩
  have hmisfits : checkSignature signature [1, 2] ⟨[0xae]⟩ PlainTransaction.twofold.transaction 1 =
      .ok false := checkSignature_of_noKey rfl
  have hscript : signedOnce.script.instructions =
      .ok ([⟨0xab, none, 0⟩] ++ ⟨0xae, none, 1⟩ :: []) := rfl
  have hfront : Machine.afterAll { stack := (signedOnceLeft key signature).stack } signedOnce
      [⟨0xab, none, 0⟩] = .ok (signedOnceLeft key signature) := rfl
  have hruns : (signedOnceLeft key signature).RunsAs signedOnce ⟨0xae, none, 1⟩
      (.checkMultisig false) := by
    constructor <;> rfl
  have hstack : (signedOnceLeft key signature).stack = [2] :: ([key, [1, 2]].reverse ++
      [1] :: ([signature].reverse ++ [] :: [[3]])) := rfl
  have hcheck := execute_checkMultisig hscript hfront hruns rfl hstack rfl rfl (Nat.le_succ 1)
    (by decide : 2 ≤ maxKeys)
  have hpassed : passed signedOnce [⟨0xab, none, 0⟩]
      { stack := (signedOnceLeft key signature).stack } = 1 := rfl
  have hcode : (Signature.unsigned [signature] [⟨0xae, none, 1⟩]).flatMap Instruction.encode =
      [0xae] := by
    simp [Signature.unsigned, Instruction.pushes, Instruction.encode]
  have hinput : signedOnce.setting.input = 1 := rfl
  rw [hpassed] at hcheck
  simp only [List.drop_one, List.tail_cons, List.nil_append, hcode, hinput] at hcheck
  obtain ⟨-, valid, -, hvalid, hresult, -⟩ := hcheck (by
    intro p hp
    have htried : p ∈ [(signature, [1, 2]), (signature, key)] := by
      simpa [Signature.tried, Signature.matchTraced, hmisfits, hfits] using hp
    rcases List.mem_pair.1 htried with rfl | rfl
    · exact ⟨false, hmisfits⟩
    · exact ⟨true, hfits⟩)
  have htrue : valid = true := by
    refine hvalid.2 ⟨fun _ => ⟨0, Nat.zero_lt_two⟩, fun j k hlt => ?_, fun j => ?_⟩
    · rw [Subsingleton.elim (α := Fin 1) j k] at hlt
      exact absurd hlt (lt_irrefl _)
    · rw [Subsingleton.elim (α := Fin 1) j 0]
      exact hfits
  have htext : signedOnce.table.name 0xae ++ ": " ++ toString 1 ++ " of " ++ toString 2 ++
      " signature(s) " ++ "valid" = "OP_CHECKMULTISIG: 1 of 2 signature(s) valid" := by
    decide +kernel
  rw [hresult ⟨(by decide : 4 ≤ maxOps), fun _ => trivial⟩, htrue]
  exact congrArg (fun text : String => (Except.ok text, _)) htext

end Machine

end CoinScript
