import CoinScript.Proofs.SignatureHash.Checking
import CoinScript.Proofs.SignatureHash.SigningOrder
import CoinScript.Proofs.Verification.ScriptHash

/-!
Locks that ask for a signature under a key.

The digest is taken before there is a script for the input and checked when there is one, and in
between the scripts of inputs may change: it does not depend on any of them. Nor does it on the
signature, which the checker would cut out of the lock but does not find there.
-/

namespace CoinScript

open FieldName SignatureHash

/-! ### Scripts of inputs -/

def Transaction.setInputScripts (tx : Transaction) (edits : List (Nat × Script)) :
    Except Fault Transaction :=
  edits.foldlM (fun tx e => tx.setInputScript e.1 e.2) tx

def Input.withScripts (edits : List (Nat × Script)) (xs : List Input) : List Input :=
  edits.foldl (fun xs e => xs.modify e.1 (Input.withScript e.2)) xs

section Edits

variable {set : SchemaSet} {c : set.Ledger} {w : Frame c} {xs : List Input} {ys : List Output}
  {e : Nat × Script} {edits : List (Nat × Script)} {index : Nat}

lemma withScripts_cons : Input.withScripts (e :: edits) xs =
    Input.withScripts edits (xs.modify e.1 (Input.withScript e.2)) := rfl

lemma getElem?_withScripts (h : ∀ e ∈ edits, e.1 ≠ index) :
    (Input.withScripts edits xs)[index]? = xs[index]? := by
  induction edits generalizing xs with
  | nil => rfl
  | cons e edits ih =>
    rw [withScripts_cons, ih fun e he => h e (List.mem_cons_of_mem _ he),
      List.getElem?_modify_ne _ _ (h e List.mem_cons_self)]

lemma setInputScripts_transaction (outs : List Record) (h : ∀ e ∈ edits, e.1 < xs.length) :
    (w.transaction (xs.map (·.record set)) outs).setInputScripts edits =
      .ok (w.transaction ((Input.withScripts edits xs).map (·.record set)) outs) := by
  induction edits generalizing xs with
  | nil => rfl
  | cons e edits ih =>
    have hset := setInputScript_transaction (w := w) (s := e.2) outs (h e List.mem_cons_self)
    have hrest : ∀ e' ∈ edits, e'.1 < (xs.modify e.1 (Input.withScript e.2)).length := by
      intro e' he
      rw [List.length_modify]
      exact h e' (List.mem_cons_of_mem _ he)
    rw [withScripts_cons, ← ih hrest, Transaction.setInputScripts, List.foldlM_cons, hset,
      Except.ok_bind]
    rfl

lemma digest_withScripts (edits : List (Nat × Script)) {code : Script} {t : SighashType} :
    digest code (w.transaction ((Input.withScripts edits xs).map (·.record set))
        (ys.map (·.record set))) index t =
      digest code (w.transaction (xs.map (·.record set)) (ys.map (·.record set))) index t := by
  induction edits generalizing xs with
  | nil => rfl
  | cons e edits ih => rw [withScripts_cons, ih, digest_modify]

lemma inputScript_transaction {x : Input} (outs : List Record) (hx : xs[index]? = some x) :
    (w.transaction (xs.map (·.record set)) outs).inputScript index = .ok x.script := by
  have hget : (x.record set).get? scriptSig = some (.script x.script) :=
    Record.get?_mk c.parts.txin scriptSig
  have hinput : (w.transaction (xs.map (·.record set)) outs).input index = .ok (x.record set) := by
    unfold Transaction.input
    rw [Frame.inputs_transaction, List.getElem?_map, hx]
    rfl
  unfold Transaction.inputScript
  rw [hinput, Except.ok_bind, Record.script?, hget]
  rfl

end Edits

/-! ### The lock -/

section Check

variable {key sig : Bytes} {below : Stack} {tx : Transaction} {code code' : Script} {v : Bool}

lemma Effect.checkSig_eq {setting : Setting} (name : String) (htx : setting.tx? = some tx)
    (hcode : code.removePush sig = .ok code')
    (hcheck : checkSignature sig key code' tx setting.input = .ok v) :
    ∃ log, Effect.checkSig setting code name false (key :: sig :: below) =
      (.ok log, Number.ofBool v :: below) := by
  have htransaction : setting.transaction name = .ok tx := by
    unfold Setting.transaction
    rw [htx]
  simp only [Effect.checkSig, Effect.two, htransaction, hcode, hcheck, Except.ok_bind]
  exact ⟨_, rfl⟩

lemma Machine.after_checkSig {env : Env} {m : Machine} {offset : Nat}
    (hkeeps : env.table.Keeps 0xac) (hm : m.executing = true) (hops : m.opCount < maxOps)
    (hsize : m.size ≤ maxStackSize + 1) (hstack : m.stack = key :: sig :: below)
    (htx : env.setting.tx? = some tx) (hcode : (m.code env).removePush sig = .ok code')
    (hcheck : checkSignature sig key code' tx env.setting.input = .ok v) :
    m.after env ⟨0xac, none, offset⟩ =
      .ok { m with stack := Number.ofBool v :: below, opCount := m.opCount + 1 } := by
  rw [after_own hkeeps (b := .checkSig false) rfl (by decide) (by decide) hm hops]
  rcases m with ⟨stack, altstack, conditions, opCount, codeStart⟩
  cases hstack
  obtain ⟨log, heffect⟩ :=
    Effect.checkSig_eq (env.table.name 0xac) htx hcode hcheck
  have hrun : Machine.runBuiltin ⟨key :: sig :: below, altstack, conditions, opCount + 1,
      codeStart⟩ env (env.table.name 0xac) offset (.checkSig false) =
        (.ok log, ⟨Number.ofBool v :: below, altstack, conditions, opCount + 1, codeStart⟩) := by
    change onStack _ (Effect.checkSig _ _ _ false) = _
    rw [onStack_eq_ok]
    exact ⟨_, heffect, rfl⟩
  have hsize' : size ⟨Number.ofBool v :: below, altstack, conditions, opCount + 1, codeStart⟩ ≤
      maxStackSize := by
    simp only [size, List.length_cons] at hsize ⊢
    omega
  rw [hrun]
  exact limited_eq_ok.2 ⟨hsize', rfl⟩

end Check

lemma runScript_of_afterAll (env : Env) {stack : Stack} {is : List Instruction} {m : Machine}
    (his : env.script.instructions = .ok is)
    (h : Machine.afterAll { stack := stack } env is = .ok m) (hm : m.conditions = []) :
    (runScript env stack).fault? = none ∧ (runScript env stack).machine = m := by
  rw [runScript_ok his]
  exact ⟨Machine.run_fault?_eq_none.2 ⟨m, h, hm⟩, Machine.run_machine h⟩

section Run

variable (env : Env) {data key sig : Bytes} {tx : Transaction}

lemma length_le_maxItemSize (h : data.length ≤ 75) : data.length ≤ maxItemSize :=
  Nat.le_trans h (by decide)

lemma runScript_pushData (hscript : env.script = Script.empty.pushData data)
    (h : data.length ≤ 75) :
    (runScript env []).fault? = none ∧ (runScript env []).machine = { stack := [data] } := by
  refine runScript_of_afterAll env (hscript ▸ Script.instructions_singlePush h) ?_ rfl
  rw [Machine.afterAll_cons,
    (Machine.after_push (length_le_maxItemSize h) rfl).2 ⟨by decide, rfl⟩]
  rfl

lemma runScript_payToKey (hkeeps : env.table.Keeps 0xac) (hscript : env.script = .payToKey key)
    (hkey : key.length ≤ 75) (hne : key ≠ sig) (htx : env.setting.tx? = some tx)
    (hcheck : checkSignature sig key (.payToKey key) tx env.setting.input = .ok true) :
    (runScript env [sig]).fault? = none ∧
      (runScript env [sig]).machine = { stack := [Number.ofBool true], opCount := 1 } := by
  have hlock := Script.instructions_payToKey hkey
  -- the key is no signature, so nothing is taken out of the code
  have hcode : (Machine.code { stack := [key, sig] } env).removePush sig =
      .ok (.payToKey key) := by
    rw [Machine.code, hscript]
    refine Script.removePush_eq_self hlock fun i hi => ?_
    rcases List.mem_pair.1 hi with rfl | rfl <;> simp [hne]
  have hone : Machine.size { stack := [sig] } < maxStackSize := show 1 < maxStackSize by decide
  have htwo : Machine.size { stack := [key, sig] } ≤ maxStackSize + 1 :=
    show 2 ≤ maxStackSize + 1 by decide
  have hops : 0 < maxOps := by decide
  refine runScript_of_afterAll env (hscript ▸ hlock) ?_ rfl
  rw [Machine.afterAll_cons,
    (Machine.after_push (length_le_maxItemSize hkey) rfl).2 ⟨hone, rfl⟩, Except.ok_bind,
    Machine.afterAll_cons, Machine.after_checkSig hkeeps rfl hops htwo rfl htx hcode hcheck]
  rfl

end Run

lemma Attempt.valid_of_checks {a : Attempt} {key sig : Bytes} (hkeeps : a.table.Keeps 0xac)
    (hkey : key.length = 33) (hsig : sig.length ≤ 75) (hne : key ≠ sig)
    (hlocking : a.locking = .payToKey key) (hunlocking : a.unlocking = Script.empty.pushData sig)
    (hcheck : checkSignature sig key (.payToKey key) a.spend.tx a.spend.input = .ok true) :
    a.execution.valid = true := by
  obtain ⟨hunlocks, hmachine⟩ := runScript_pushData
    ⟨a.table, a.spend.setting, .unlocking, a.unlocking⟩ hunlocking hsig
  have hleft : a.left = [sig] := congrArg Machine.stack hmachine
  obtain ⟨hlocks, hmachine'⟩ := runScript_payToKey
    ⟨a.table, a.spend.setting, .locking, a.locking⟩ hkeeps hlocking (by omega) hne rfl
    hcheck
  rw [← hleft] at hlocks hmachine'
  have hredeems : a.redeems = false := by
    simp [redeems, hlocking, Script.isPayToScriptHash, Script.length_payToKey hkey]
  rw [valid_iff, fault?_eq_none_iff, verifies_iff]
  refine ⟨⟨hunlocks, hlocks, ?_⟩, fun h => ?_⟩
  · exact congrArg (fun m => Stack.topIsTrue m.stack) hmachine'
  · rw [hredeems] at h
    exact absurd h Bool.false_ne_true

/-! ### Signing and verifying -/

variable {secret : Bytes} {d : Ecdsa.SecretKey} {tx : Transaction} {index : Nat}
  {t : SighashType} {z : Hash256} {sig : Ecdsa.Signature}

lemma compressed_ne_encode (key : Ecdsa.PublicKey) (sig : Ecdsa.Signature) (b : UInt8) :
    key.compressed ≠ Ecdsa.Der.encode sig ++ [b] := by
  intro h
  have hhead := congrArg List.head? h
  simp only [Ecdsa.PublicKey.compressed, Ecdsa.Der.encode, List.cons_append, List.head?_cons,
    Option.some_inj] at hhead
  split at hhead <;> exact absurd hhead (by decide)

lemma Input.getElem?_withScripts_one {before after : List (Nat × Script)} {xs : List Input}
    {x : Input} {s : Script} (h : ∀ e ∈ before ++ after, e.1 ≠ index) (hx : xs[index]? = some x) :
    (withScripts (before ++ (index, s) :: after) xs)[index]? = some (x.withScript s) := by
  have hsplit : withScripts (before ++ (index, s) :: after) xs =
      withScripts after ((withScripts before xs).modify index (withScript s)) :=
    List.foldl_append
  rw [hsplit, getElem?_withScripts fun e he => h e (List.mem_append_right _ he),
    List.getElem?_modify_eq, getElem?_withScripts fun e he => h e (List.mem_append_left _ he), hx]
  rfl

/-- **A signed input verifies**: pushed by the script of an input, a signature of its digest under
a type of one byte undoes the key lock, whatever scripts the other inputs are given before and
after, under all rules and in any state of the chain. -/
theorem verify_payToKey (hkey : Ecdsa.SecretKey.ofBytes secret = .ok d)
    (htx : tx.record.WellFormed Standard.bitcoin .transaction) (ht : t.value < 0x100)
    (hdigest : digest (.payToKey d.publicKey.compressed) tx index t = .ok z) :
    ∃ key signature, publicKey secret = .ok key ∧ signDigest secret z t = .ok signature ∧
      ∀ before after : List (Nat × Script),
        (∀ e ∈ before ++ after, e.1 ≠ index ∧ e.1 < tx.inputs.length) →
          ∃ tx', tx.setInputScripts
              (before ++ (index, Script.empty.pushData signature) :: after) = .ok tx' ∧
            digest (.payToKey key) tx' index t = .ok z ∧
            ∀ flags chain?, (verify Profile.bitcoin.opcodes (.payToKey key)
              ⟨tx', index, flags, chain?⟩).valid = true := by
  refine ⟨_, _, publicKey_eq hkey, signDigest_eq hkey, fun before after hothers => ?_⟩
  obtain ⟨w, xs, ys, rfl⟩ := Frame.exists_of_wellFormed Standard.bitcoinLedger htx
  rw [Frame.inputs_transaction, List.length_map] at hothers
  obtain ⟨b, hpreimage, -⟩ := Except.bind_eq_ok.1 hdigest
  have hindex : index < xs.length := (preimage_eq_ok.1 hpreimage).1
  have hcanonical := (Ecdsa.verify_sign d z).1
  set s := Script.empty.pushData (Ecdsa.Der.encode (Ecdsa.sign d z) ++ [t.value.toUInt8])
  have hrange : ∀ e ∈ before ++ (index, s) :: after, e.1 < xs.length := by
    intro e he
    rcases List.mem_append.1 he with he | he
    · exact (hothers e (List.mem_append_left _ he)).2
    rcases List.mem_cons.1 he with rfl | he
    · exact hindex
    · exact (hothers e (List.mem_append_right _ he)).2
  have hscript := inputScript_transaction (w := w) (ys.map (·.record Standard.bitcoin))
    (Input.getElem?_withScripts_one (s := s) (fun e he => (hothers e he).1)
      (List.getElem?_eq_getElem hindex))
  -- setting the scripts leaves the digest as it was signed
  have hdigest' := (digest_withScripts (before ++ (index, s) :: after)).trans hdigest
  refine ⟨_, setInputScripts_transaction _ hrange, hdigest', fun flags chain? => ?_⟩
  rw [verify, hscript]
  have hlen := Ecdsa.Der.length_encode_le hcanonical
  have hkeeps : Profile.bitcoin.opcodes.Keeps 0xac := by decide
  refine Attempt.valid_of_checks (a := ⟨_, _, _, _⟩) hkeeps
    (Ecdsa.PublicKey.length_compressed _) ?_ (compressed_ne_encode _ _ _) rfl rfl ?_
  · rw [List.length_append, List.length_singleton]
    omega
  · exact checkSignature_signed ((SighashType.lowByte_eq ht).symm ▸ hdigest')

theorem verify_ones : ∃ z key signature tx',
    digest (.payToKey key) PlainTransaction.twofold.transaction 1 ⟨0x83⟩ = .ok z ∧
      publicKey ones = .ok key ∧ signDigest ones z ⟨0x83⟩ = .ok signature ∧
      PlainTransaction.twofold.transaction.setInputScripts
        [(0, ⟨[0x51]⟩), (1, Script.empty.pushData signature), (0, ⟨[0x52]⟩), (0, .empty)] =
          .ok tx' ∧
      (verify Profile.bitcoin.opcodes (.payToKey key) ⟨tx', 1, 0xffffffff, some ⟨7, 8⟩⟩).valid =
        true := by
  obtain ⟨z, hdigest⟩ := exists_digest_ones
  obtain ⟨key, signature, hkey, hsigned, h⟩ := verify_payToKey ofBytes_ones
    PlainTransaction.twofold.transaction_wellFormed (by decide) hdigest
  obtain ⟨tx', hset, -, hvalid⟩ := h [(0, ⟨[0x51]⟩)] [(0, ⟨[0x52]⟩), (0, .empty)] (by decide)
  have hlock : Script.payToKey key = onesLock := by
    rw [publicKey_eq ofBytes_ones] at hkey
    cases hkey
    rfl
  exact ⟨z, key, signature, tx', hlock ▸ hdigest, hkey, hsigned, hset, hvalid _ _⟩

end CoinScript
