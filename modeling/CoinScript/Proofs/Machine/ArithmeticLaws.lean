import CoinScript.Proofs.Machine.Numeric

/-!
Laws of the numeric words.

Where the words of a law are enabled and have no handlers, each gives what the law says, for
operands of any length and however they are written. Results are used as operands of other words,
since they denote what they were written for.
-/

namespace CoinScript

namespace Env

open NumericWord (opcode)

variable {env : Env}

/-! ### What is given -/

lemma yields_of_outcome {w : NumericWord} {args : List Bytes} {r : Int}
    (h : env.table.Own w.opcode) (hargs : args.length = w.arity)
    (houtcome : w.outcome (env.table.name w.opcode) (args.map Number.decode) = .ok [r]) :
    env.Yields w.opcode args (Number.encode r) :=
  NumericWord.gives_of_outcome h hargs houtcome

lemma yields_unary {op : UnaryOp} (h : env.table.Own (opcode (.unary op))) (a : Bytes) :
    env.Yields (opcode (.unary op)) [a] (Number.encode (op.eval (Number.decode a))) :=
  yields_of_outcome h rfl rfl

lemma yields_binary {op : BinaryOp} {a b : Bytes} {r : Int}
    (h : env.table.Own (opcode (.binary op)))
    (heval : op.eval? (Number.decode a) (Number.decode b) = some r) :
    env.Yields (opcode (.binary op)) [b, a] (Number.encode r) := by
  refine yields_of_outcome h rfl ?_
  simp only [List.map_cons, List.map_nil, NumericWord.outcome, heval]

lemma yields_shift {left : Bool} {bits : Bytes} (h : env.table.Own (opcode (.shift left)))
    (hnonneg : 0 ≤ Number.decode bits) (hmost : Number.decode bits ≤ 4160) (a : Bytes) :
    env.Yields (opcode (.shift left)) [bits, a] (Number.encode
      (if left then Number.decode a * (Nat.pow 2 (Number.decode bits).toNat : Nat)
        else (Number.decode a).fdiv (Nat.pow 2 (Number.decode bits).toNat : Nat))) := by
  refine yields_of_outcome h rfl ?_
  simp only [List.map_cons, List.map_nil, NumericWord.outcome, NumericWord.shifted]
  rw [if_neg (by omega), if_neg (by omega)]
  cases left <;> rfl

/-! ### Sums and comparisons -/

lemma yields_sub (h : env.Has opcode [.binary .sub, .unary .negate, .binary .add]) (a b : Bytes) :
    ∃ n r, env.Yields (opcode (.unary .negate)) [b] n ∧
      env.Yields (opcode (.binary .add)) [n, a] r ∧
      env.Yields (opcode (.binary .sub)) [b, a] r := by
  refine ⟨_, Number.encode (Number.decode a - Number.decode b),
    yields_unary (h _ (by decide)) b, yields_binary (h _ (by decide)) ?_,
    yields_binary (h _ (by decide)) rfl⟩
  rw [Number.decode_encode]
  rfl

lemma yields_min_max (h : env.Has opcode [.binary .min, .binary .max, .binary .add]) (a b : Bytes) :
    ∃ least most r, env.Yields (opcode (.binary .min)) [b, a] least ∧
      env.Yields (opcode (.binary .max)) [b, a] most ∧
      env.Yields (opcode (.binary .add)) [most, least] r ∧
      env.Yields (opcode (.binary .add)) [b, a] r := by
  refine ⟨_, _, Number.encode (Number.decode a + Number.decode b),
    yields_binary (h _ (by decide)) rfl, yields_binary (h _ (by decide)) rfl,
    yields_binary (h _ (by decide)) ?_, yields_binary (h _ (by decide)) rfl⟩
  rw [Number.decode_encode, Number.decode_encode]
  exact congrArg some (min_add_max (Number.decode a) (Number.decode b))

lemma yields_within
    (h : env.Has opcode [.within, .binary .lessOrEqual, .binary .less, .binary .boolAnd])
    (x least most : Bytes) : ∃ above below r,
      env.Yields (opcode (.binary .lessOrEqual)) [x, least] above ∧
      env.Yields (opcode (.binary .less)) [most, x] below ∧
      env.Yields (opcode (.binary .boolAnd)) [below, above] r ∧
      env.Yields (opcode .within) [most, least, x] r := by
  have hwithin : env.Yields (opcode .within) [most, least, x] _ :=
    yields_of_outcome (h .within (by decide)) rfl rfl
  refine ⟨_, _, _, yields_binary (h _ (by decide)) rfl, yields_binary (h _ (by decide)) rfl,
    yields_binary (h _ (by decide)) ?_, hwithin⟩
  rw [Number.decode_encode, Number.decode_encode]
  have hflag (p : Bool) : BinaryOp.flag p ≠ 0 ↔ p = true := by cases p <;> decide
  simp only [BinaryOp.eval?, hflag, decide_eq_true_eq]

/-! ### Quotients -/

lemma yields_mod (h : env.Has opcode [.binary .mod]) (a b : Bytes) (hb : Number.decode b ≠ 0) :
    ∃ r, env.Yields (opcode (.binary .mod)) [b, a] r ∧
      (Number.decode r).natAbs < (Number.decode b).natAbs ∧
      (Number.decode r = 0 ∨ (Number.decode r).sign = (Number.decode a).sign) := by
  refine ⟨_, yields_binary (h _ (by decide)) (if_neg hb), ?_, ?_⟩
  · rw [Number.decode_encode, Int.natAbs_tmod]
    exact Nat.mod_lt _ (Int.natAbs_pos.2 hb)
  · rw [Number.decode_encode, Int.sign_tmod]
    by_cases hdvd : Number.decode b ∣ Number.decode a
    · exact .inl (Int.tmod_eq_zero_of_dvd hdvd)
    · exact .inr (if_neg hdvd)

lemma yields_div_mod (h : env.Has opcode [.binary .div, .binary .mul, .binary .add, .binary .mod])
    (a b : Bytes) (hb : Number.decode b ≠ 0) : ∃ q p r,
      env.Yields (opcode (.binary .div)) [b, a] q ∧
      env.Yields (opcode (.binary .mul)) [b, q] p ∧
      env.Yields (opcode (.binary .mod)) [b, a] r ∧
      env.Yields (opcode (.binary .add)) [r, p] (Number.encode (Number.decode a)) := by
  refine ⟨_, _, _, yields_binary (h _ (by decide)) (if_neg hb),
    yields_binary (h _ (by decide)) rfl, yields_binary (h _ (by decide)) (if_neg hb),
    yields_binary (h _ (by decide)) ?_⟩
  rw [Number.decode_encode, Number.decode_encode, Number.decode_encode]
  exact congrArg some (Int.tdiv_mul_add_tmod (Number.decode a) (Number.decode b))

lemma refuses_zero {op : BinaryOp} (hop : op = .div ∨ op = .mod) (h : env.Has opcode [.binary op])
    (a b : Bytes) (hb : Number.decode b = 0) : env.Refuses (opcode (.binary op)) [b, a]
      (.stackOperation (.byZero (env.table.name (opcode (.binary op))))) := by
  refine NumericWord.refuses_of_outcome (h _ List.mem_cons_self) rfl ?_
  have heval : op.eval? (Number.decode a) (Number.decode b) = none := by
    rcases hop with rfl | rfl
    · exact if_pos hb
    · exact if_pos hb
  simp only [List.map_cons, List.map_nil, NumericWord.outcome, heval]

/-! ### Shifts -/

lemma two_pow_pos (n : Nat) : (0 : Int) < (Nat.pow 2 n : Nat) :=
  Int.natCast_pos.2 (Nat.two_pow_pos n)

lemma yields_shift_back (h : env.Has opcode [.shift true, .shift false]) (a bits : Bytes)
    (hnonneg : 0 ≤ Number.decode bits) (hmost : Number.decode bits ≤ 4160) :
    ∃ l, env.Yields (opcode (.shift true)) [bits, a] l ∧
      env.Yields (opcode (.shift false)) [bits, l] (Number.encode (Number.decode a)) := by
  refine ⟨_, yields_shift (h _ (by decide)) hnonneg hmost a, ?_⟩
  have hback := yields_shift (h (.shift false) (by decide)) hnonneg hmost
    (Number.encode (Number.decode a * (Nat.pow 2 (Number.decode bits).toNat : Nat)))
  rwa [Number.decode_encode, if_neg Bool.false_ne_true,
    Int.mul_fdiv_cancel _ (Int.ne_of_gt (two_pow_pos _))] at hback

lemma yields_shift_right (h : env.Has opcode [.shift false]) (a bits : Bytes)
    (hnonneg : 0 ≤ Number.decode bits) (hmost : Number.decode bits ≤ 4160) :
    ∃ r, env.Yields (opcode (.shift false)) [bits, a] r ∧
      Number.decode r * (Nat.pow 2 (Number.decode bits).toNat : Nat) ≤ Number.decode a ∧
      Number.decode a < (Number.decode r + 1) * (Nat.pow 2 (Number.decode bits).toNat : Nat) := by
  have hpos := two_pow_pos (Number.decode bits).toNat
  refine ⟨_, yields_shift (h _ (by decide)) hnonneg hmost a, ?_, ?_⟩
  · rw [Number.decode_encode, if_neg Bool.false_ne_true,
      Int.fdiv_eq_ediv_of_nonneg _ (Int.le_of_lt hpos)]
    exact Int.ediv_mul_le _ (Int.ne_of_gt hpos)
  · rw [Number.decode_encode, if_neg Bool.false_ne_true]
    exact Int.lt_fdiv_add_one_mul_self _ hpos

lemma yields_one_bit (a bits : Bytes) (hbits : Number.decode bits = 1) :
    (env.Has opcode [.unary .double, .shift true] →
      ∃ r, env.Yields (opcode (.unary .double)) [a] r ∧
        env.Yields (opcode (.shift true)) [bits, a] r) ∧
    (env.Has opcode [.unary .halve, .shift false] →
      ∃ r, env.Yields (opcode (.unary .halve)) [a] r ∧
        env.Yields (opcode (.shift false)) [bits, a] r) := by
  have hnonneg : 0 ≤ Number.decode bits := by omega
  have hmost : Number.decode bits ≤ 4160 := by omega
  constructor
  · intro h
    have hshift := yields_shift (h (.shift true) (by decide)) hnonneg hmost a
    rw [hbits, if_pos rfl, Int.mul_comm] at hshift
    exact ⟨_, yields_unary (h _ (by decide)) a, hshift⟩
  · intro h
    have hshift := yields_shift (h (.shift false) (by decide)) hnonneg hmost a
    rw [hbits, if_neg Bool.false_ne_true] at hshift
    exact ⟨_, yields_unary (h _ (by decide)) a, hshift⟩

/-! ### All together -/

/-- **Numeric words compute with integers.** A word that is enabled and has no handler leaves what
the integers come to that its operands denote, written in the shortest way, or fails for them,
however the operands are written. Where the words of a law are enabled and have no handlers, they
obey it. -/
theorem computes_integers (env : Env) :
    (∀ (w : NumericWord) (args : List Bytes), env.table.Own w.opcode → args.length = w.arity →
      (∀ ns, w.outcome (env.table.name w.opcode) (args.map Number.decode) = .ok ns →
        env.Gives w.opcode args (ns.map Number.encode)) ∧
      (∀ e, w.outcome (env.table.name w.opcode) (args.map Number.decode) = .error e →
        env.Refuses w.opcode args e) ∧
      ∀ args', args.map Number.decode = args'.map Number.decode →
        (∀ left, env.Gives w.opcode args left →
          env.Gives w.opcode args' left ∧ ∀ r ∈ left, Number.IsShortest r) ∧
        ∀ e, env.Refuses w.opcode args e → env.Refuses w.opcode args' e) ∧
    (∀ a b, env.Has opcode [.binary .sub, .unary .negate, .binary .add] →
      ∃ n r, env.Yields (opcode (.unary .negate)) [b] n ∧
        env.Yields (opcode (.binary .add)) [n, a] r ∧
        env.Yields (opcode (.binary .sub)) [b, a] r) ∧
    (∀ a b, env.Has opcode [.binary .min, .binary .max, .binary .add] →
      ∃ least most r, env.Yields (opcode (.binary .min)) [b, a] least ∧
        env.Yields (opcode (.binary .max)) [b, a] most ∧
        env.Yields (opcode (.binary .add)) [most, least] r ∧
        env.Yields (opcode (.binary .add)) [b, a] r) ∧
    (∀ x least most,
      env.Has opcode [.within, .binary .lessOrEqual, .binary .less, .binary .boolAnd] →
      ∃ above below r, env.Yields (opcode (.binary .lessOrEqual)) [x, least] above ∧
        env.Yields (opcode (.binary .less)) [most, x] below ∧
        env.Yields (opcode (.binary .boolAnd)) [below, above] r ∧
        env.Yields (opcode .within) [most, least, x] r) ∧
    (∀ a b, Number.decode b ≠ 0 →
      (env.Has opcode [.binary .div, .binary .mul, .binary .add, .binary .mod] →
        ∃ q p r, env.Yields (opcode (.binary .div)) [b, a] q ∧
          env.Yields (opcode (.binary .mul)) [b, q] p ∧
          env.Yields (opcode (.binary .mod)) [b, a] r ∧
          env.Yields (opcode (.binary .add)) [r, p] (Number.encode (Number.decode a))) ∧
      (env.Has opcode [.binary .mod] → ∃ r, env.Yields (opcode (.binary .mod)) [b, a] r ∧
        (Number.decode r).natAbs < (Number.decode b).natAbs ∧
        (Number.decode r = 0 ∨ (Number.decode r).sign = (Number.decode a).sign))) ∧
    (∀ a b, ∀ op ∈ [BinaryOp.div, BinaryOp.mod], Number.decode b = 0 →
      env.Has opcode [.binary op] → env.Refuses (opcode (.binary op)) [b, a]
        (.stackOperation (.byZero (env.table.name (opcode (.binary op)))))) ∧
    (∀ a bits, 0 ≤ Number.decode bits → Number.decode bits ≤ 4160 →
      (env.Has opcode [.shift true, .shift false] →
        ∃ l, env.Yields (opcode (.shift true)) [bits, a] l ∧
          env.Yields (opcode (.shift false)) [bits, l] (Number.encode (Number.decode a))) ∧
      (env.Has opcode [.shift false] → ∃ r, env.Yields (opcode (.shift false)) [bits, a] r ∧
        Number.decode r * (Nat.pow 2 (Number.decode bits).toNat : Nat) ≤ Number.decode a ∧
        Number.decode a < (Number.decode r + 1) * (Nat.pow 2 (Number.decode bits).toNat : Nat))) ∧
    ∀ a bits, Number.decode bits = 1 →
      (env.Has opcode [.unary .double, .shift true] →
        ∃ r, env.Yields (opcode (.unary .double)) [a] r ∧
          env.Yields (opcode (.shift true)) [bits, a] r) ∧
      (env.Has opcode [.unary .halve, .shift false] →
        ∃ r, env.Yields (opcode (.unary .halve)) [a] r ∧
          env.Yields (opcode (.shift false)) [bits, a] r) := by
  refine ⟨fun w args hown hargs => ⟨fun ns => NumericWord.gives_of_outcome hown hargs,
      fun e => NumericWord.refuses_of_outcome hown hargs, fun args' hsame =>
        ⟨fun left => NumericWord.gives_congr hown hargs hsame,
          fun e => NumericWord.refuses_congr hown hargs hsame⟩⟩,
    fun a b h => yields_sub h a b, fun a b h => yields_min_max h a b,
    fun x least most h => yields_within h x least most,
    fun a b hb => ⟨fun h => yields_div_mod h a b hb, fun h => yields_mod h a b hb⟩,
    fun a b op hop hb h => ?_,
    fun a bits hnonneg hmost => ⟨fun h => yields_shift_back h a bits hnonneg hmost,
      fun h => yields_shift_right h a bits hnonneg hmost⟩,
    fun a bits hbits => yields_one_bit a bits hbits⟩
  refine refuses_zero ?_ h a b hb
  simpa using hop

end Env

lemma unrestricted_own (w : NumericWord) : unrestricted.table.Own w.opcode := by
  rcases w with op | op | - | - | left
  case unary => cases op <;> exact ⟨rfl, rfl⟩
  case binary => cases op <;> exact ⟨rfl, rfl⟩
  case shift => cases left <;> exact ⟨rfl, rfl⟩
  all_goals exact ⟨rfl, rfl⟩

lemma unrestricted_has (ws : List NumericWord) : unrestricted.Has NumericWord.opcode ws :=
  fun w _ => unrestricted_own w

open NumericWord (opcode) in
/-- Minus seven by two, neither written in the shortest way: the quotient is minus three and the
remainder minus one, but a shift by one bit gives minus four. Negative zero divides nothing. -/
theorem Env.computes_integers_negative :
    unrestricted.Yields (opcode (.binary .div)) [[2, 0], [7, 0x80]] [0x83] ∧
    unrestricted.Yields (opcode (.binary .div)) [[2], [0x87]] [0x83] ∧
    unrestricted.Yields (opcode (.shift false)) [[1, 0, 0], [7, 0x80]] [0x84] ∧
    (∃ r, unrestricted.Yields (opcode (.unary .halve)) [[7, 0x80]] r ∧
      unrestricted.Yields (opcode (.shift false)) [[1, 0, 0], [7, 0x80]] r) ∧
    (∃ l, unrestricted.Yields (opcode (.shift true)) [[1, 0, 0], [7, 0x80]] l ∧
      unrestricted.Yields (opcode (.shift false)) [[1, 0, 0], l] [0x87]) ∧
    (∃ q p r, unrestricted.Yields (opcode (.binary .div)) [[2, 0], [7, 0x80]] q ∧
      unrestricted.Yields (opcode (.binary .mul)) [[2, 0], q] p ∧
      unrestricted.Yields (opcode (.binary .mod)) [[2, 0], [7, 0x80]] r ∧
      unrestricted.Yields (opcode (.binary .add)) [r, p] [0x87]) ∧
    unrestricted.Refuses 0x97 [[0, 0x80], [5]] (.stackOperation (.byZero "OP_MOD")) ∧
    (∃ n r, unrestricted.Yields (opcode (.unary .negate)) [[2, 0]] n ∧
      unrestricted.Yields (opcode (.binary .add)) [n, [7, 0x80]] r ∧
      unrestricted.Yields (opcode (.binary .sub)) [[2, 0], [7, 0x80]] r) := by
  obtain ⟨hwords, hsub, -, -, hdiv, hzero, hshift, hone⟩ := Env.computes_integers unrestricted
  obtain ⟨hdivides, -, hrewritten⟩ :=
    hwords (.binary .div) [[2, 0], [7, 0x80]] (unrestricted_own _) rfl
  have hthree : [[0x83]] = [-3].map Number.encode := by decide +kernel
  have hfour : [[0x84]] = [-4].map Number.encode := by decide +kernel
  have hseven : [0x87] = Number.encode (Number.decode [7, 0x80]) := by decide +kernel
  have hquotient : unrestricted.Yields (opcode (.binary .div)) [[2, 0], [7, 0x80]] [0x83] := by
    rw [Env.Yields, hthree]
    exact hdivides [-3] (by decide +kernel)
  have hshifted : unrestricted.Yields (opcode (.shift false)) [[1, 0, 0], [7, 0x80]] [0x84] := by
    rw [Env.Yields, hfour]
    exact (hwords (.shift false) [[1, 0, 0], [7, 0x80]] (unrestricted_own _) rfl).1 [-4]
      (by decide +kernel)
  have hback := (hshift [7, 0x80] [1, 0, 0] (by decide) (by decide)).1 (unrestricted_has _)
  obtain ⟨q, p, r, hq, hp, hr, hsum⟩ :=
    (hdiv [7, 0x80] [2, 0] (by decide)).1 (unrestricted_has _)
  rw [← hseven] at hback hsum
  exact ⟨hquotient, ((hrewritten [[2], [0x87]] (by decide +kernel)).1 _ hquotient).1, hshifted,
    (hone [7, 0x80] [1, 0, 0] (by decide)).2 (unrestricted_has _), hback,
    ⟨q, p, r, hq, hp, hr, hsum⟩,
    hzero [5] [0, 0x80] .mod (by decide) (by decide) (unrestricted_has _),
    hsub [7, 0x80] [2, 0] (unrestricted_has _)⟩

end CoinScript
