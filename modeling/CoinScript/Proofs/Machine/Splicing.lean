import CoinScript.Proofs.Machine.Numeric

/-!
Words that cut, join and combine bytes.

A number of bytes to cut at is any encoding of it, and may be as large as it likes: a cut is made
exactly where it lies within the bytes, and otherwise refused. So the words obey the laws of lists
and, bit by bit, those of truth values.
-/

namespace CoinScript

/-- The words that cut, join and combine bytes. -/
inductive BytesWord where
  | concat
  | substring
  | keep (left : Bool)
  | invert
  | bitwise (op : BitOp)
  deriving DecidableEq

namespace BytesWord

def opcode : BytesWord → Opcode
  | concat => 0x7e
  | substring => 0x7f
  | keep true => 0x80
  | keep false => 0x81
  | invert => 0x83
  | bitwise .and => 0x84
  | bitwise .or => 0x85
  | bitwise .xor => 0x86

def builtin : BytesWord → Builtin
  | concat => .concat
  | substring => .substring
  | keep left => .keep left
  | invert => .invert
  | bitwise op => .bitwise op

def effect : BytesWord → String → Effect
  | concat => Effect.concat
  | substring => Effect.substring
  | keep left => (Effect.keep · left)
  | invert => Effect.invert
  | bitwise op => op.effect

lemma ofOpcode?_opcode (w : BytesWord) : Builtin.ofOpcode? w.opcode = some w.builtin := by
  rcases w with - | - | left | - | op
  case keep => cases left <;> rfl
  case bitwise => cases op <;> rfl
  all_goals rfl

lemma builtin_ne_number (w : BytesWord) (n : Int) : w.builtin ≠ .number n := by
  cases w <;> nofun

lemma runBuiltin_builtin (w : BytesWord) {name : String} (env : Env) (m : Machine) (offset : Nat) :
    m.runBuiltin env name offset w.builtin = m.onStack (w.effect name) := by
  cases w <;> rfl

variable {env : Env} {w : BytesWord} {args : List Bytes}

lemma yields_of_effect {r : Bytes} (hown : env.table.Own w.opcode)
    (heffect : ∀ below, w.effect (env.table.name w.opcode) (args ++ below) =
      ((Reply.item (env.table.name w.opcode) r).1, [r] ++ below)) : env.Yields w.opcode args r :=
  ⟨_, Env.answers_of_effect hown w.ofOpcode?_opcode w.builtin_ne_number (w.runBuiltin_builtin env)
    heffect⟩

lemma refuses_of_effect {e : Fault} (left : List Bytes) (hown : env.table.Own w.opcode)
    (heffect : ∀ below, w.effect (env.table.name w.opcode) (args ++ below) =
      (.error e, left ++ below)) : env.Refuses w.opcode args e :=
  ⟨left, Env.answers_of_effect hown w.ofOpcode?_opcode w.builtin_ne_number
    (w.runBuiltin_builtin env) heffect⟩

end BytesWord

/-! ### Bits -/

namespace BitOp

/-- The operation that makes of opposites the opposite, where there is one. -/
def dual : BitOp → Option BitOp
  | and => some or
  | or => some and
  | xor => none

lemma eval_not {op op' : BitOp} (h : op.dual = some op') (x y : UInt8) :
    ~~~ op.eval x y = op'.eval (~~~ x) (~~~ y) := by
  refine UInt8.eq_of_toBitVec_eq ?_
  cases op <;> cases h
  case and => exact BitVec.not_and
  case or => exact BitVec.not_or

lemma eval_xor_twice (x y : UInt8) : xor.eval (xor.eval x y) y = x := by
  change x ^^^ y ^^^ y = x
  rw [UInt8.xor_assoc, UInt8.xor_self, UInt8.xor_zero]

lemma zipWith_xor_twice {a b : Bytes} (h : a.length = b.length) :
    List.zipWith xor.eval (List.zipWith xor.eval a b) b = a := by
  induction a generalizing b with
  | nil => rfl
  | cons x a ih =>
    cases b with
    | nil => contradiction
    | cons y b =>
      rw [List.zipWith_cons_cons, List.zipWith_cons_cons, eval_xor_twice, ih (Nat.succ.inj h)]

end BitOp

namespace Env

open BytesWord (opcode)

variable {env : Env}

/-! ### Cutting -/

/-- Why a cut is refused: a number is none that counts bytes, or there are not so many. -/
def cutFaults (name : String) : List StackFault :=
  [.operandOutOfRange name, .rangeExceedsOperand name]

lemma yields_keep {left : Bool} {n d : Bytes} (h : env.table.Own (opcode (.keep left)))
    (hsize : d.length < Nat.pow 2 63) (hfits : 0 ≤ Number.decode n ∧ Number.decode n ≤ d.length) :
    env.Yields (opcode (.keep left)) [n, d] (if left then d.take (Number.decode n).toNat
      else d.drop (d.length - (Number.decode n).toNat)) := by
  have hindex : Effect.index? n = some (Number.decode n).toNat := by
    rw [NumericWord.index?_eq, if_neg (by change d.length < 0x8000000000000000 at hsize; omega)]
  refine BytesWord.yields_of_effect h fun below => ?_
  simp only [BytesWord.effect, Effect.keep, List.cons_append, Effect.two, hindex]
  rw [if_neg (by omega)]
  rfl

lemma refuses_keep {left : Bool} {n d : Bytes} (h : env.table.Own (opcode (.keep left)))
    (hfits : ¬ (0 ≤ Number.decode n ∧ Number.decode n ≤ d.length)) :
    ∃ e ∈ cutFaults (env.table.name (opcode (.keep left))),
      env.Refuses (opcode (.keep left)) [n, d] (.stackOperation e) := by
  have hindex := NumericWord.index?_eq n
  split_ifs at hindex with hrange
  · refine ⟨_, List.mem_cons_self, BytesWord.refuses_of_effect [n, d] h fun below => ?_⟩
    simp only [BytesWord.effect, Effect.keep, List.cons_append, Effect.two, hindex]
    rfl
  · refine ⟨_, List.mem_cons_of_mem _ List.mem_cons_self,
      BytesWord.refuses_of_effect [] h fun below => ?_⟩
    simp only [BytesWord.effect, Effect.keep, List.cons_append, Effect.two, hindex]
    rw [if_pos (by omega)]
    rfl

lemma yields_substring {size begin d : Bytes} (h : env.table.Own (opcode .substring))
    (hsize : d.length < Nat.pow 2 63)
    (hfits : 0 ≤ Number.decode begin ∧ 0 ≤ Number.decode size ∧
      Number.decode begin + Number.decode size ≤ d.length) :
    env.Yields (opcode .substring) [size, begin, d]
      ((d.drop (Number.decode begin).toNat).take (Number.decode size).toNat) := by
  change d.length < 0x8000000000000000 at hsize
  have hbegin := NumericWord.index?_eq begin
  have hcount := NumericWord.index?_eq size
  rw [if_neg (by omega)] at hbegin hcount
  refine BytesWord.yields_of_effect h fun below => ?_
  simp only [BytesWord.effect, Effect.substring, List.cons_append, Effect.three, hbegin, hcount]
  rw [if_neg (by omega)]
  rfl

lemma refuses_substring {size begin d : Bytes} (h : env.table.Own (opcode .substring))
    (hfits : ¬ (0 ≤ Number.decode begin ∧ 0 ≤ Number.decode size ∧
      Number.decode begin + Number.decode size ≤ d.length)) :
    ∃ e ∈ cutFaults (env.table.name (opcode .substring)),
      env.Refuses (opcode .substring) [size, begin, d] (.stackOperation e) := by
  have hbegin := NumericWord.index?_eq begin
  have hcount := NumericWord.index?_eq size
  -- the size is on top and refused first, and only numbers that count bytes are added up
  split_ifs at hcount with hlarge
  · refine ⟨_, List.mem_cons_self,
      BytesWord.refuses_of_effect [size, begin, d] h fun below => ?_⟩
    simp only [BytesWord.effect, Effect.substring, List.cons_append, Effect.three, hcount]
    rfl
  · split_ifs at hbegin with hfar
    · refine ⟨_, List.mem_cons_self, BytesWord.refuses_of_effect [begin, d] h fun below => ?_⟩
      simp only [BytesWord.effect, Effect.substring, List.cons_append, Effect.three, hbegin, hcount]
      rfl
    · refine ⟨_, List.mem_cons_of_mem _ List.mem_cons_self,
        BytesWord.refuses_of_effect [] h fun below => ?_⟩
      simp only [BytesWord.effect, Effect.substring, List.cons_append, Effect.three, hbegin, hcount]
      rw [if_pos (by omega)]
      rfl

lemma yields_substring_ends {size begin rest d : Bytes}
    (h : env.Has opcode [.substring, .keep true, .keep false]) (hsize : d.length < Nat.pow 2 63)
    (hfits : 0 ≤ Number.decode begin ∧ 0 ≤ Number.decode size ∧
      Number.decode begin + Number.decode size ≤ d.length)
    (hrest : Number.decode rest = d.length - Number.decode begin) :
    ∃ tail r, env.Yields (opcode (.keep false)) [rest, d] tail ∧
      env.Yields (opcode (.keep true)) [size, tail] r ∧
      env.Yields (opcode .substring) [size, begin, d] r := by
  -- what is kept at the right end begins where the cut does
  have htail : d.length - (Number.decode rest).toNat = (Number.decode begin).toNat := by omega
  have hlength : (d.drop (d.length - (Number.decode rest).toNat)).length =
      (Number.decode rest).toNat := by
    rw [List.length_drop]
    omega
  refine ⟨_, _, yields_keep (h _ (by decide)) hsize ⟨by omega, by omega⟩,
    yields_keep (h (.keep true) (by decide)) ?_ ?_, ?_⟩
  · rw [if_neg Bool.false_ne_true, hlength]
    omega
  · rw [if_neg Bool.false_ne_true, hlength]
    omega
  · rw [if_pos rfl, if_neg Bool.false_ne_true, htail]
    exact yields_substring (h _ (by decide)) hsize hfits

/-! ### Joining -/

lemma yields_concat {a b : Bytes} (h : env.table.Own (opcode .concat))
    (hfits : a.length + b.length ≤ 520) : env.Yields (opcode .concat) [b, a] (a ++ b) := by
  refine BytesWord.yields_of_effect h fun below => ?_
  simp only [BytesWord.effect, Effect.concat, List.cons_append, Effect.two]
  rw [if_neg (show ¬ maxItemSize < a.length + b.length from Nat.not_lt.2 hfits)]
  rfl

lemma refuses_concat {a b : Bytes} (h : env.table.Own (opcode .concat))
    (hlarge : 520 < a.length + b.length) :
    env.Refuses (opcode .concat) [b, a] (.pushSize (a.length + b.length) 520) := by
  refine BytesWord.refuses_of_effect [] h fun below => ?_
  simp only [BytesWord.effect, Effect.concat, List.cons_append, Effect.two]
  rw [if_pos (show maxItemSize < a.length + b.length from hlarge)]
  rfl

lemma yields_parts {n k d : Bytes} (h : env.Has opcode [.keep true, .keep false, .concat])
    (hsize : d.length ≤ 520) (hfits : 0 ≤ Number.decode n ∧ Number.decode n ≤ d.length)
    (hrest : Number.decode k = d.length - Number.decode n) :
    ∃ l r, env.Yields (opcode (.keep true)) [n, d] l ∧ env.Yields (opcode (.keep false)) [k, d] r ∧
      env.Yields (opcode .concat) [r, l] d := by
  have hcut : d.length - (Number.decode k).toNat = (Number.decode n).toNat := by omega
  have hsmall : d.length < Nat.pow 2 63 := Nat.lt_of_le_of_lt hsize (by decide)
  have hparts := List.take_append_drop (Number.decode n).toNat d
  refine ⟨_, _, yields_keep (h _ (by decide)) hsmall hfits,
    yields_keep (h (.keep false) (by decide)) hsmall ⟨by omega, by omega⟩, ?_⟩
  rw [if_pos rfl, if_neg Bool.false_ne_true, hcut]
  have hjoined := yields_concat (a := d.take (Number.decode n).toNat)
    (b := d.drop (Number.decode n).toNat) (h .concat (by decide))
  rw [← List.length_append, hparts] at hjoined
  exact hjoined hsize

/-! ### Bit by bit -/

lemma yields_invert (h : env.table.Own (opcode .invert)) (a : Bytes) :
    env.Yields (opcode .invert) [a] (a.map (~~~ ·)) :=
  BytesWord.yields_of_effect h fun _ => rfl

lemma yields_bitwise {op : BitOp} {a b : Bytes} (h : env.table.Own (opcode (.bitwise op)))
    (hlength : a.length = b.length) :
    env.Yields (opcode (.bitwise op)) [b, a] (List.zipWith op.eval a b) := by
  refine BytesWord.yields_of_effect h fun below => ?_
  simp only [BytesWord.effect, BitOp.effect, List.cons_append, Effect.two, if_pos hlength]
  rfl

lemma refuses_bitwise {op : BitOp} {a b : Bytes} (h : env.table.Own (opcode (.bitwise op)))
    (hlength : a.length ≠ b.length) : env.Refuses (opcode (.bitwise op)) [b, a] (.stackOperation
      (.sizesDiffer (env.table.name (opcode (.bitwise op))) a.length b.length)) := by
  refine BytesWord.refuses_of_effect [] h fun below => ?_
  simp only [BytesWord.effect, BitOp.effect, List.cons_append, Effect.two, if_neg hlength]
  rfl

lemma yields_invert_twice (h : env.Has opcode [.invert]) (a : Bytes) :
    ∃ r, env.Yields (opcode .invert) [a] r ∧ env.Yields (opcode .invert) [r] a := by
  refine ⟨_, yields_invert (h _ (by decide)) a, ?_⟩
  have hback := yields_invert (h .invert (by decide)) (a.map (~~~ ·))
  have hid : a.map ((~~~ · : UInt8 → UInt8) ∘ (~~~ ·)) = a := by
    simp only [Function.comp_def, UInt8.not_not, List.map_id']
  rwa [List.map_map, hid] at hback

lemma yields_xor_twice {a b : Bytes} (h : env.Has opcode [.bitwise .xor])
    (hlength : a.length = b.length) :
    ∃ r, env.Yields (opcode (.bitwise .xor)) [b, a] r ∧
      env.Yields (opcode (.bitwise .xor)) [b, r] a := by
  refine ⟨_, yields_bitwise (h _ (by decide)) hlength, ?_⟩
  have hback := yields_bitwise (a := List.zipWith BitOp.xor.eval a b) (b := b)
    (h (.bitwise .xor) (by decide)) (by rw [List.length_zipWith, hlength, Nat.min_self])
  rwa [BitOp.zipWith_xor_twice hlength] at hback

lemma yields_dual {op op' : BitOp} {a b : Bytes} (hdual : op.dual = some op')
    (h : env.Has opcode [.bitwise op, .bitwise op', .invert]) (hlength : a.length = b.length) :
    ∃ r s t u, env.Yields (opcode (.bitwise op)) [b, a] r ∧ env.Yields (opcode .invert) [r] s ∧
      env.Yields (opcode .invert) [a] t ∧ env.Yields (opcode .invert) [b] u ∧
      env.Yields (opcode (.bitwise op')) [u, t] s := by
  have hinvert : env.table.Own (opcode .invert) := h _ (by simp)
  refine ⟨_, _, _, _, yields_bitwise (h _ (by simp)) hlength, yields_invert hinvert _,
    yields_invert hinvert a, yields_invert hinvert b, ?_⟩
  have hcombined := yields_bitwise (a := a.map (~~~ ·)) (b := b.map (~~~ ·))
    (h (.bitwise op') (by simp)) (by rw [List.length_map, List.length_map, hlength])
  rw [List.zipWith_map] at hcombined
  rw [List.map_zipWith]
  simp only [BitOp.eval_not hdual]
  exact hcombined

/-! ### All together -/

/-- **Words on bytes obey their laws**, whatever the sizes of their operands and however numbers of
bytes are written. A word that is enabled and has no handler answers exactly for the bytes that
there are, up to the largest size of a buffer; where the words of a law are, they obey it. -/
theorem computes_bytes (env : Env) :
    (∀ (left : Bool) (n d : Bytes), d.length < Nat.pow 2 63 →
      env.table.Own (opcode (.keep left)) →
      (0 ≤ Number.decode n ∧ Number.decode n ≤ d.length →
        env.Yields (opcode (.keep left)) [n, d] (if left then d.take (Number.decode n).toNat
          else d.drop (d.length - (Number.decode n).toNat))) ∧
      (¬ (0 ≤ Number.decode n ∧ Number.decode n ≤ d.length) →
        ∃ e ∈ cutFaults (env.table.name (opcode (.keep left))),
          env.Refuses (opcode (.keep left)) [n, d] (.stackOperation e))) ∧
    (∀ size begin d : Bytes, d.length < Nat.pow 2 63 → env.table.Own (opcode .substring) →
      (0 ≤ Number.decode begin ∧ 0 ≤ Number.decode size ∧
          Number.decode begin + Number.decode size ≤ d.length →
        env.Yields (opcode .substring) [size, begin, d]
          ((d.drop (Number.decode begin).toNat).take (Number.decode size).toNat)) ∧
      (¬ (0 ≤ Number.decode begin ∧ 0 ≤ Number.decode size ∧
          Number.decode begin + Number.decode size ≤ d.length) →
        ∃ e ∈ cutFaults (env.table.name (opcode .substring)),
          env.Refuses (opcode .substring) [size, begin, d] (.stackOperation e))) ∧
    (∀ size begin rest d : Bytes, d.length < Nat.pow 2 63 →
      env.Has opcode [.substring, .keep true, .keep false] →
      0 ≤ Number.decode begin ∧ 0 ≤ Number.decode size ∧
        Number.decode begin + Number.decode size ≤ d.length →
      Number.decode rest = d.length - Number.decode begin →
      ∃ tail r, env.Yields (opcode (.keep false)) [rest, d] tail ∧
        env.Yields (opcode (.keep true)) [size, tail] r ∧
        env.Yields (opcode .substring) [size, begin, d] r) ∧
    (∀ a b : Bytes, env.table.Own (opcode .concat) →
      (a.length + b.length ≤ 520 → env.Yields (opcode .concat) [b, a] (a ++ b)) ∧
      (520 < a.length + b.length →
        env.Refuses (opcode .concat) [b, a] (.pushSize (a.length + b.length) 520))) ∧
    (∀ n k d : Bytes, d.length ≤ 520 → env.Has opcode [.keep true, .keep false, .concat] →
      0 ≤ Number.decode n ∧ Number.decode n ≤ d.length →
      Number.decode k = d.length - Number.decode n →
      ∃ l r, env.Yields (opcode (.keep true)) [n, d] l ∧
        env.Yields (opcode (.keep false)) [k, d] r ∧ env.Yields (opcode .concat) [r, l] d) ∧
    (∀ a, env.Has opcode [.invert] →
      ∃ r, env.Yields (opcode .invert) [a] r ∧ env.Yields (opcode .invert) [r] a) ∧
    (∀ (op : BitOp) (a b : Bytes), env.table.Own (opcode (.bitwise op)) →
      (a.length = b.length →
        env.Yields (opcode (.bitwise op)) [b, a] (List.zipWith op.eval a b)) ∧
      (a.length ≠ b.length → env.Refuses (opcode (.bitwise op)) [b, a] (.stackOperation
        (.sizesDiffer (env.table.name (opcode (.bitwise op))) a.length b.length)))) ∧
    (∀ a b : Bytes, a.length = b.length → env.Has opcode [.bitwise .xor] →
      ∃ r, env.Yields (opcode (.bitwise .xor)) [b, a] r ∧
        env.Yields (opcode (.bitwise .xor)) [b, r] a) ∧
    ∀ (op op' : BitOp) (a b : Bytes), op.dual = some op' → a.length = b.length →
      env.Has opcode [.bitwise op, .bitwise op', .invert] →
      ∃ r s t u, env.Yields (opcode (.bitwise op)) [b, a] r ∧ env.Yields (opcode .invert) [r] s ∧
        env.Yields (opcode .invert) [a] t ∧ env.Yields (opcode .invert) [b] u ∧
        env.Yields (opcode (.bitwise op')) [u, t] s :=
  ⟨fun _ _ _ hsize h => ⟨yields_keep h hsize, refuses_keep h⟩,
    fun _ _ _ hsize h => ⟨yields_substring h hsize, refuses_substring h⟩,
    fun _ _ _ _ hsize h => yields_substring_ends h hsize,
    fun _ _ h => ⟨yields_concat h, refuses_concat h⟩,
    fun _ _ _ hsize h => yields_parts h hsize,
    fun a h => yields_invert_twice h a,
    fun _ _ _ h => ⟨yields_bitwise h, refuses_bitwise h⟩,
    fun _ _ hlength h => yields_xor_twice h hlength,
    fun _ _ _ _ hdual hlength h => yields_dual hdual h hlength⟩

end Env

lemma unrestricted_own_bytes (w : BytesWord) : unrestricted.table.Own w.opcode := by
  rcases w with - | - | left | - | op
  case keep => cases left <;> exact ⟨rfl, rfl⟩
  case bitwise => cases op <;> exact ⟨rfl, rfl⟩
  all_goals exact ⟨rfl, rfl⟩

lemma unrestricted_has_bytes (ws : List BytesWord) : unrestricted.Has BytesWord.opcode ws :=
  fun w _ => unrestricted_own_bytes w

open BytesWord (opcode) in
theorem Env.computes_bytes_five :
    unrestricted.Yields (opcode (.keep true)) [[2, 0], [1, 2, 3, 4, 5]] [1, 2] ∧
    unrestricted.Yields (opcode .substring) [[2], [1], [1, 2, 3, 4, 5]] [2, 3] ∧
    (∃ e ∈ Env.cutFaults "OP_SUBSTR", unrestricted.Refuses (opcode .substring)
      [[255, 255, 255, 255, 255, 255, 255, 127], [255, 255, 255, 255, 255, 255, 255, 127],
        [1, 2, 3, 4, 5]] (.stackOperation e)) ∧
    (∃ tail r, unrestricted.Yields (opcode (.keep false)) [[4], [1, 2, 3, 4, 5]] tail ∧
      unrestricted.Yields (opcode (.keep true)) [[2], tail] r ∧
      unrestricted.Yields (opcode .substring) [[2], [1], [1, 2, 3, 4, 5]] r) ∧
    (∃ l r, unrestricted.Yields (opcode (.keep true)) [[2, 0], [1, 2, 3, 4, 5]] l ∧
      unrestricted.Yields (opcode (.keep false)) [[3], [1, 2, 3, 4, 5]] r ∧
      unrestricted.Yields (opcode .concat) [r, l] [1, 2, 3, 4, 5]) ∧
    unrestricted.Refuses (opcode .concat) [[1], List.replicate 520 0] (.pushSize 521 520) ∧
    unrestricted.Refuses (opcode (.bitwise .and)) [[1, 2], [1]]
      (.stackOperation (.sizesDiffer "OP_AND" 1 2)) ∧
    (∃ r, unrestricted.Yields (opcode (.bitwise .xor)) [[3, 4], [1, 2]] r ∧
      unrestricted.Yields (opcode (.bitwise .xor)) [[3, 4], r] [1, 2]) ∧
    ∃ r s t u, unrestricted.Yields (opcode (.bitwise .and)) [[3, 4], [1, 2]] r ∧
      unrestricted.Yields (opcode .invert) [r] s ∧
      unrestricted.Yields (opcode .invert) [[1, 2]] t ∧
      unrestricted.Yields (opcode .invert) [[3, 4]] u ∧
      unrestricted.Yields (opcode (.bitwise .or)) [u, t] s := by
  obtain ⟨hkeep, hsub, hends, hconcat, hparts, -, hbits, hxor, hdual⟩ :=
    Env.computes_bytes unrestricted
  have hsize : ([1, 2, 3, 4, 5] : Bytes).length < Nat.pow 2 63 := by decide
  have hjoined := (hconcat (List.replicate 520 0) [1] (unrestricted_own_bytes _)).2
  rw [List.length_replicate] at hjoined
  exact ⟨(hkeep true [2, 0] _ hsize (unrestricted_own_bytes _)).1 (by decide),
    (hsub [2] [1] _ hsize (unrestricted_own_bytes _)).1 (by decide),
    (hsub [255, 255, 255, 255, 255, 255, 255, 127] [255, 255, 255, 255, 255, 255, 255, 127] _ hsize
      (unrestricted_own_bytes _)).2 (by decide),
    hends [2] [1] [4] _ hsize (unrestricted_has_bytes _) (by decide) (by decide),
    hparts [2, 0] [3] [1, 2, 3, 4, 5] (by decide) (unrestricted_has_bytes _) (by decide)
      (by decide),
    hjoined (by decide),
    (hbits .and [1] [1, 2] (unrestricted_own_bytes _)).2 (by decide),
    hxor [1, 2] [3, 4] rfl (unrestricted_has_bytes _),
    hdual .and .or [1, 2] [3, 4] rfl rfl (unrestricted_has_bytes _)⟩

end CoinScript
