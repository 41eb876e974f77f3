import CoinScript.Proofs.Machine.Operands
import CoinScript.Proofs.Number.Shortest
import Mathlib.Algebra.Order.Ring.Int

/-!
Numeric words, as arithmetic of integers.

What a numeric word gives is written for what the integers that its operands denote come to, and in
the shortest way. So it does not matter how an operand is written, negative zero and superfluous
bytes included, and the words obey the laws of the integers: quotients are truncated, and shifts
round down.
-/

namespace CoinScript

/-- The words that compute with numbers. -/
inductive NumericWord where
  | unary (op : UnaryOp)
  | binary (op : BinaryOp)
  | numEqualVerify
  | within
  | shift (left : Bool)
  deriving DecidableEq

namespace NumericWord

def opcode : NumericWord → Opcode
  | unary .inc => 0x8b
  | unary .dec => 0x8c
  | unary .double => 0x8d
  | unary .halve => 0x8e
  | unary .negate => 0x8f
  | unary .abs => 0x90
  | unary .isZero => 0x91
  | unary .isNonzero => 0x92
  | binary .add => 0x93
  | binary .sub => 0x94
  | binary .mul => 0x95
  | binary .div => 0x96
  | binary .mod => 0x97
  | shift true => 0x98
  | shift false => 0x99
  | binary .boolAnd => 0x9a
  | binary .boolOr => 0x9b
  | binary .equal => 0x9c
  | numEqualVerify => 0x9d
  | binary .notEqual => 0x9e
  | binary .less => 0x9f
  | binary .greater => 0xa0
  | binary .lessOrEqual => 0xa1
  | binary .greaterOrEqual => 0xa2
  | binary .min => 0xa3
  | binary .max => 0xa4
  | within => 0xa5

def builtin : NumericWord → Builtin
  | unary op => .unary op
  | binary op => .binary op
  | numEqualVerify => .numEqualVerify
  | within => .within
  | shift left => .shift left

def effect : NumericWord → String → Effect
  | unary op => op.effect
  | binary op => op.effect
  | numEqualVerify => Effect.numEqualVerify
  | within => Effect.within
  | shift left => (Effect.shift · left)

def arity : NumericWord → Nat
  | unary _ => 1
  | binary _ | numEqualVerify | shift _ => 2
  | within => 3

/-- The bits of a shift are below the sixty-four bits of an index, and no more than a limit. -/
def shifted (name : String) (left : Bool) (bits n : Int) : Except Fault Int :=
  if bits < 0 ∨ 0x8000000000000000 ≤ bits then
    .error (.stackOperation (.operandOutOfRange name))
  else if 4160 < bits then .error (.stackOperation (.shiftTooFar name bits.toNat))
  else if left then .ok (n * (Nat.pow 2 bits.toNat : Nat))
  else .ok (n.fdiv (Nat.pow 2 bits.toNat : Nat))

/-- What a word makes of integers, the top one first: the numbers it leaves, or why it fails. -/
def outcome (name : String) : NumericWord → List Int → Except Fault (List Int)
  | unary op, [a] => .ok [op.eval a]
  | binary op, [b, a] =>
    match op.eval? a b with
    | some r => .ok [r]
    | none => .error (.stackOperation (.byZero name))
  | numEqualVerify, [b, a] => if a = b then .ok [] else .error (.verifyFailed (.falseValue name))
  | within, [most, least, x] => .ok [BinaryOp.flag (least ≤ x ∧ x < most)]
  | shift left, [bits, a] => do return [← shifted name left bits a]
  | w, _ => .error (.missingOperands name w.arity)

variable {w : NumericWord} {name : String}

lemma ofOpcode?_opcode (w : NumericWord) : Builtin.ofOpcode? w.opcode = some w.builtin := by
  rcases w with op | op | - | - | left
  case unary => cases op <;> rfl
  case binary => cases op <;> rfl
  case shift => cases left <;> rfl
  all_goals rfl

lemma builtin_ne_number (w : NumericWord) (n : Int) : w.builtin ≠ .number n := by
  cases w <;> nofun

lemma runBuiltin_builtin (w : NumericWord) (env : Env) (m : Machine) (offset : Nat) :
    m.runBuiltin env name offset w.builtin = m.onStack (w.effect name) := by
  cases w <;> rfl

/-! ### What words leave on the stack -/

lemma index?_eq (b : Bytes) : Effect.index? b =
    if Number.decode b < 0 ∨ 0x8000000000000000 ≤ Number.decode b then none
    else some (Number.decode b).toNat := by
  unfold Effect.index? Number.decodeBounded?
  generalize Number.decode b = n
  by_cases hrange : n < 0 ∨ 0x8000000000000000 ≤ n
  · rw [if_pos hrange]
    by_cases hsigned : -0x8000000000000000 ≤ n ∧ n < 0x8000000000000000
    · simp only [if_pos hsigned]
      exact if_neg (by omega)
    · simp only [if_neg hsigned]
  · rw [if_neg hrange]
    have hsigned : -0x8000000000000000 ≤ n ∧ n < 0x8000000000000000 := by omega
    simp only [if_pos hsigned]
    exact if_pos (by omega)

/-- The reply of a word to its operands, which answers for their numbers. -/
def Replies (w : NumericWord) (name : String) (args : List Bytes) : Except Fault (List Int) → Prop
  | .ok ns => ∃ log, ∀ below,
    w.effect name (args ++ below) = (.ok log, ns.map Number.encode ++ below)
  | .error e => ∃ left, ∀ below, w.effect name (args ++ below) = (.error e, left ++ below)

lemma Replies.ok {args : List Bytes} {ns : List Int} {x : Except Fault (List Int)} (log : String)
    (hx : x = .ok ns)
    (h : ∀ below, w.effect name (args ++ below) = (.ok log, ns.map Number.encode ++ below)) :
    w.Replies name args x := by
  rw [hx]
  exact ⟨log, h⟩

lemma Replies.error {args : List Bytes} {e : Fault} {x : Except Fault (List Int)}
    (left : List Bytes) (hx : x = .error e)
    (h : ∀ below, w.effect name (args ++ below) = (.error e, left ++ below)) :
    w.Replies name args x := by
  rw [hx]
  exact ⟨left, h⟩

lemma replies_binary (op : BinaryOp) (b a : Bytes) : (binary op).Replies name [b, a]
    ((binary op).outcome name [Number.decode b, Number.decode a]) := by
  cases heval : op.eval? (Number.decode a) (Number.decode b) with
  | none =>
    refine Replies.error [] (by simp only [outcome, heval]; rfl) fun below => ?_
    simp only [effect, BinaryOp.effect, List.cons_append, Effect.two, heval]
    rfl
  | some r =>
    refine Replies.ok s!"{name}: {Number.decode a}, {Number.decode b} -> {r}"
      (by simp only [outcome, heval]; rfl) fun below => ?_
    simp only [effect, BinaryOp.effect, List.cons_append, Effect.two, heval]
    rfl

lemma replies_numEqualVerify (b a : Bytes) : numEqualVerify.Replies name [b, a]
    (numEqualVerify.outcome name [Number.decode b, Number.decode a]) := by
  by_cases heq : Number.decode a = Number.decode b
  · refine Replies.ok s!"{name}: passed" (by simp only [outcome, if_pos heq]; rfl) fun below => ?_
    simp [effect, Effect.numEqualVerify, Effect.two, Reply.verdict, heq]
  · refine Replies.error [] (by simp only [outcome, if_neg heq]; rfl) fun below => ?_
    simp [effect, Effect.numEqualVerify, Effect.two, Reply.verdict, heq]

lemma replies_within (most least x : Bytes) : within.Replies name [most, least, x]
    (within.outcome name [Number.decode most, Number.decode least, Number.decode x]) := by
  let inside : Bool :=
    Number.decode least ≤ Number.decode x && Number.decode x < Number.decode most
  refine Replies.ok
    s!"{name}: {Number.decode x} in [{Number.decode least}, {Number.decode most}) is {inside}"
    (by simp only [outcome]; rfl) fun below => ?_
  simp only [effect, Effect.within, List.cons_append, Effect.three, Number.ofBool_eq]
  simp [BinaryOp.flag, inside]

lemma replies_shift (left : Bool) (bits n : Bytes) : (shift left).Replies name [bits, n]
    ((shift left).outcome name [Number.decode bits, Number.decode n]) := by
  have hindex := index?_eq bits
  -- the number of bits is looked at first, and the number itself stays where it is not one
  by_cases hrange : Number.decode bits < 0 ∨ 0x8000000000000000 ≤ Number.decode bits
  · rw [if_pos hrange] at hindex
    refine Replies.error [bits, n] (by simp only [outcome, shifted, if_pos hrange]; rfl)
      fun below => ?_
    simp only [effect, Effect.shift, List.cons_append, Effect.two, hindex]
    rfl
  · rw [if_neg hrange] at hindex
    have hmost : Effect.maxShift = 4160 := rfl
    by_cases hfar : 4160 < Number.decode bits
    · have hlt : Effect.maxShift < (Number.decode bits).toNat := by omega
      refine Replies.error [n]
        (by simp only [outcome, shifted, if_neg hrange, if_pos hfar]; rfl) fun below => ?_
      simp only [effect, Effect.shift, List.cons_append, Effect.two, hindex, if_pos hlt]
      rfl
    · have hle : ¬ Effect.maxShift < (Number.decode bits).toNat := by omega
      let r := if left then Number.decode n * (Nat.pow 2 (Number.decode bits).toNat : Nat)
        else (Number.decode n).fdiv (Nat.pow 2 (Number.decode bits).toNat : Nat)
      have hbits : shifted name left (Number.decode bits) (Number.decode n) = .ok r := by
        simp only [shifted, if_neg hrange, if_neg hfar]
        cases left <;> rfl
      refine Replies.ok s!"{name}: {Number.decode n} by {(Number.decode bits).toNat} -> {r}"
        (by simp only [outcome, hbits]; rfl) fun below => ?_
      simp only [effect, Effect.shift, List.cons_append, Effect.two, hindex, if_neg hle]
      rfl

lemma replies_outcome (name : String) {args : List Bytes} (h : args.length = w.arity) :
    w.Replies name args (w.outcome name (args.map Number.decode)) := by
  cases w with
  | unary op =>
    obtain ⟨a, rfl⟩ := List.length_eq_one_iff.1 h
    exact ⟨_, fun below => rfl⟩
  | binary op =>
    obtain ⟨b, a, rfl⟩ := List.length_eq_two.1 h
    exact replies_binary op b a
  | numEqualVerify =>
    obtain ⟨b, a, rfl⟩ := List.length_eq_two.1 h
    exact replies_numEqualVerify b a
  | within =>
    obtain ⟨most, least, x, rfl⟩ := List.length_eq_three.1 h
    exact replies_within most least x
  | shift left =>
    obtain ⟨bits, n, rfl⟩ := List.length_eq_two.1 h
    exact replies_shift left bits n

/-! ### What executed words do -/

variable {env : Env} {args args' : List Bytes} {ns : List Int} {e : Fault}

lemma gives_of_outcome (hown : env.table.Own w.opcode) (hargs : args.length = w.arity)
    (h : w.outcome (env.table.name w.opcode) (args.map Number.decode) = .ok ns) :
    env.Gives w.opcode args (ns.map Number.encode) := by
  have hreplies := replies_outcome (env.table.name w.opcode) hargs
  rw [h] at hreplies
  obtain ⟨log, heffect⟩ := hreplies
  exact ⟨log, Env.answers_of_effect hown w.ofOpcode?_opcode w.builtin_ne_number
    (w.runBuiltin_builtin env) heffect⟩

lemma refuses_of_outcome (hown : env.table.Own w.opcode) (hargs : args.length = w.arity)
    (h : w.outcome (env.table.name w.opcode) (args.map Number.decode) = .error e) :
    env.Refuses w.opcode args e := by
  have hreplies := replies_outcome (env.table.name w.opcode) hargs
  rw [h] at hreplies
  obtain ⟨left, heffect⟩ := hreplies
  exact ⟨left, Env.answers_of_effect hown w.ofOpcode?_opcode w.builtin_ne_number
    (w.runBuiltin_builtin env) heffect⟩

lemma length_congr {n : Nat} (hargs : args.length = n)
    (hsame : args.map Number.decode = args'.map Number.decode) : args'.length = n := by
  have hlength := congrArg List.length hsame
  rwa [List.length_map, List.length_map, hargs, eq_comm] at hlength

/-- **How operands are written** does not matter for what a word gives, which is written in the
shortest way. -/
lemma gives_congr {left : List Bytes} (hown : env.table.Own w.opcode)
    (hargs : args.length = w.arity) (hsame : args.map Number.decode = args'.map Number.decode)
    (h : env.Gives w.opcode args left) :
    env.Gives w.opcode args' left ∧ ∀ r ∈ left, Number.IsShortest r := by
  cases houtcome : w.outcome (env.table.name w.opcode) (args.map Number.decode) with
  | error e => exact absurd (refuses_of_outcome hown hargs houtcome) h.not_refuses
  | ok ns =>
    obtain rfl := h.unique (gives_of_outcome hown hargs houtcome)
    rw [hsame] at houtcome
    refine ⟨gives_of_outcome hown (length_congr hargs hsame) houtcome, fun r hr => ?_⟩
    obtain ⟨n, -, rfl⟩ := List.mem_map.1 hr
    exact Number.isShortest_encode n

lemma refuses_congr (hown : env.table.Own w.opcode) (hargs : args.length = w.arity)
    (hsame : args.map Number.decode = args'.map Number.decode)
    (h : env.Refuses w.opcode args e) : env.Refuses w.opcode args' e := by
  cases houtcome : w.outcome (env.table.name w.opcode) (args.map Number.decode) with
  | ok ns => exact absurd h (gives_of_outcome hown hargs houtcome).not_refuses
  | error e' =>
    obtain rfl := h.unique (refuses_of_outcome hown hargs houtcome)
    rw [hsame] at houtcome
    exact refuses_of_outcome hown (length_congr hargs hsame) houtcome

end NumericWord

end CoinScript
