import CoinScript.Proofs.Machine.ArithmeticLaws
import CoinScript.Proofs.Number.Canonical

/-!
Words that ask for the truth of an item, and words that ask for its number.

The one kind looks for a byte that is not zero, the other decodes. Both agree on every item, however
it is written: an item fails to verify exactly if the test for zero leaves a true one.
-/

namespace CoinScript

variable {env : Env} {m : Machine} {b : Bytes} {below : Stack}

def Opcode.verify : Opcode := 0x69

namespace Number

lemma truthy_encode_iff (v : Int) : truthy (encode v) = true ↔ v ≠ 0 := by
  rw [truthy_iff, decode_encode]

lemma truthy_isZero_iff (b : Bytes) :
    truthy (encode (UnaryOp.isZero.eval (decode b))) = true ↔ truthy b = false := by
  rw [truthy_encode_iff, ← Bool.not_eq_true, truthy_iff, not_not, UnaryOp.eval]
  by_cases hzero : decode b = 0
  · simp [hzero]
  · simp [hzero]

end Number

/-! ### Verifying -/

/-- What verifying answers to an item, which it takes away in any case. -/
def verifyAnswer (name : String) (b : Bytes) : Except Fault String :=
  if Number.truthy b then .ok s!"{name}: passed" else .error (.verifyFailed (.falseValue name))

lemma verifyAnswer_eq_error_iff (name : String) (b : Bytes) :
    (∃ e, verifyAnswer name b = .error e) ↔ Number.truthy b = false := by
  unfold verifyAnswer
  cases Number.truthy b <;> simp

lemma verifyEffect_cons (name : String) (b : Bytes) (below : Stack) :
    Machine.verifyEffect name (b :: below) = (verifyAnswer name b, below) := by
  simp only [Machine.verifyEffect, Effect.one, Reply.verdict, verifyAnswer, if_true]
  by_cases htrue : Number.truthy b = true
  · rw [if_pos htrue, if_pos htrue]
    rfl
  · rw [if_neg htrue, if_neg htrue]
    rfl

lemma runBuiltin_verify (hstack : m.stack = b :: below) (name : String) (offset : Nat) :
    m.runBuiltin env name offset .verify = (verifyAnswer name b, { m with stack := below }) := by
  refine Machine.onStack_eq ?_
  rw [hstack, verifyEffect_cons]

lemma runBuiltin_isZero (env : Env) (hstack : m.stack = b :: below) (name : String)
    (offset : Nat) :
    ∃ log, m.runBuiltin env name offset (.unary .isZero) = (.ok log,
      { m with stack := Number.encode (UnaryOp.isZero.eval (Number.decode b)) :: below }) := by
  refine ⟨s!"{name}: {Number.decode b} -> {UnaryOp.isZero.eval (Number.decode b)}",
    Machine.onStack_eq ?_⟩
  rw [hstack]
  rfl

namespace Env

lemma answers_verify (h : env.table.Own Opcode.verify) (b : Bytes) :
    env.Answers Opcode.verify [b] (verifyAnswer (env.table.name Opcode.verify) b, []) :=
  answers_of_effect (b := .verify) h rfl nofun (fun _ _ => rfl) fun below =>
    verifyEffect_cons _ b below

lemma refuses_verify_iff (h : env.table.Own Opcode.verify) (b : Bytes) :
    (∃ e, env.Refuses Opcode.verify [b] e) ↔ Number.truthy b = false := by
  have hanswer := answers_verify h b
  rw [← verifyAnswer_eq_error_iff (env.table.name Opcode.verify)]
  constructor
  · rintro ⟨e, left, hrefuses⟩
    exact ⟨e, (Prod.ext_iff.1 (hanswer.unique hrefuses)).1⟩
  · rintro ⟨e, he⟩
    rw [he] at hanswer
    exact ⟨e, [], hanswer⟩

lemma gives_verify (h : env.table.Own Opcode.verify) (htrue : Number.truthy b = true) :
    env.Gives Opcode.verify [b] [] := by
  have hanswer := answers_verify h b
  rw [verifyAnswer, if_pos htrue] at hanswer
  exact ⟨_, hanswer⟩

end Env

/-- **Truth is being a number other than zero.** An item is true if the number it denotes is not
zero, however it is written. So on every item the test for zero leaves a true one exactly if
verifying the item fails: as effects of their own, in any machine, and as opcodes that are executed
anywhere, if they are enabled and have no handlers. -/
theorem truth_of_numbers :
    (∀ b, Number.truthy b = true ↔ Number.decode b ≠ 0) ∧
    (∀ v, Number.truthy (Number.encode v) = true ↔ v ≠ 0) ∧
    (∀ (env : Env) (m : Machine) (isZero verify : String) (offset : Nat) (b : Bytes)
      (below : Stack), m.stack = b :: below → ∃ log r,
        m.runBuiltin env isZero offset (.unary .isZero) =
          (.ok log, { m with stack := r :: below }) ∧
        (Number.truthy r = true ↔ ∃ e, (m.runBuiltin env verify offset .verify).1 = .error e)) ∧
    ∀ (env : Env) (b : Bytes), env.table.Own (NumericWord.opcode (.unary .isZero)) →
      env.table.Own Opcode.verify → ∃ r, env.Yields (NumericWord.opcode (.unary .isZero)) [b] r ∧
        (Number.truthy r = true ↔ ∃ e, env.Refuses Opcode.verify [b] e) ∧
        (Number.truthy r = false ↔ env.Gives Opcode.verify [b] []) := by
  refine ⟨Number.truthy_iff, Number.truthy_encode_iff,
    fun env m isZero verify offset b below hstack => ?_, fun env b hzero hverify => ?_⟩
  · obtain ⟨log, hrun⟩ := runBuiltin_isZero env hstack isZero offset
    refine ⟨log, _, hrun, ?_⟩
    rw [Number.truthy_isZero_iff, runBuiltin_verify hstack, verifyAnswer_eq_error_iff]
  · have hfails := Env.refuses_verify_iff hverify b
    refine ⟨_, Env.yields_unary hzero b, ?_, ?_⟩
    · rw [hfails, Number.truthy_isZero_iff]
    · rw [← Bool.not_eq_true, Number.truthy_isZero_iff, Bool.not_eq_false]
      constructor
      · exact Env.gives_verify hverify
      · intro hgives
        -- an opcode that gives something does not refuse
        by_contra hfalse
        obtain ⟨e, hrefuses⟩ := hfails.2 (Bool.not_eq_true _ ▸ hfalse)
        exact hgives.not_refuses hrefuses

/-- Negative zero, of which a byte is zero and the other the sign alone, fails to verify, and the
test for zero leaves one. With the bytes turned around it is a hundred and twenty-eight. -/
theorem truth_of_negative_zero :
    unrestricted.table.Own (NumericWord.opcode (.unary .isZero)) ∧
    unrestricted.table.Own Opcode.verify ∧
    (∃ r, unrestricted.Yields (NumericWord.opcode (.unary .isZero)) [[0, 0x80]] r ∧
      Number.truthy r = true ∧ ∃ e, unrestricted.Refuses Opcode.verify [[0, 0x80]] e) ∧
    (∃ r, unrestricted.Yields (NumericWord.opcode (.unary .isZero)) [[0x80, 0]] r ∧
      Number.truthy r = false ∧ unrestricted.Gives Opcode.verify [[0x80, 0]] []) ∧
    ∃ log r, ({ stack := [[0, 0x80], [1]] } : Machine).runBuiltin unrestricted "OP_NOT" 0
      (.unary .isZero) = (.ok log, { stack := [r, [1]] }) ∧ Number.truthy r = true := by
  have hzero := unrestricted_own (.unary .isZero)
  have hverify : unrestricted.table.Own Opcode.verify := ⟨rfl, rfl⟩
  obtain ⟨htruth, -, hbuiltin, hopcodes⟩ := truth_of_numbers
  obtain ⟨r, hyields, hfails, -⟩ := hopcodes unrestricted [0, 0x80] hzero hverify
  obtain ⟨r', hyields', -, hgives⟩ := hopcodes unrestricted [0x80, 0] hzero hverify
  obtain ⟨log, r'', hrun, hfault⟩ :=
    hbuiltin unrestricted { stack := [[0, 0x80], [1]] } "OP_NOT" "OP_VERIFY" 0 _ _ rfl
  have hrefuses : ∃ e, unrestricted.Refuses Opcode.verify [[0, 0x80]] e :=
    (Env.refuses_verify_iff hverify _).2 (by decide)
  have hpasses : unrestricted.Gives Opcode.verify [[0x80, 0]] [] :=
    Env.gives_verify hverify ((htruth [0x80, 0]).2 (by decide))
  exact ⟨hzero, hverify, ⟨r, hyields, hfails.2 hrefuses, hrefuses⟩,
    ⟨r', hyields', hgives.2 hpasses, hpasses⟩,
    log, r'', hrun, hfault.2 ⟨.verifyFailed (.falseValue "OP_VERIFY"), rfl⟩⟩

end CoinScript
