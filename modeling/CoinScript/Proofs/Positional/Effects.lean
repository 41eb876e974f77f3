import CoinScript.Proofs.Positional.Access

/-!
Effects of opcodes by position.

Each opcode that works on the stack is written out as a computation on its row of items: how many
items it requires, which it takes off, and at which positions it reads, cuts and puts the others.
All of them compute the effects that the machine gives these opcodes, so they never go out of range.
-/

namespace CoinScript

/-! ### Rearrangements -/

open Positional in
/-- What a rearrangement does to the row. -/
def Shuffle.move : Shuffle → Positional Unit
  | drop2 => do
    let size ← back 2
    edit fun row => some (row.take size)
  | dup2 => do
    let start ← back 2
    extend (← look fun row => Ranged.slice? row start row.length)
  | dup3 => do
    let start ← back 3
    extend (← look fun row => Ranged.slice? row start row.length)
  | over2 => do
    let start ← back 4
    extend (← look (Ranged.slice? · start (start + 2)))
  | rot2 => do
    let start ← back 6
    extend (← take (Ranged.drain? · start (start + 2)))
  | swap2 => do
    let start ← back 4
    edit (Ranged.rotate? · start 2)
  | drop => do
    let _ ← pop
  | dup => do push (← peek 1)
  | nip => do
    let i ← back 2
    let _ ← take (Ranged.remove? · i)
  | copySecond => do push (← peek 2)
  | rot => do
    let start ← back 3
    edit (Ranged.rotate? · start 1)
  | swap => do
    let i ← back 1
    let j ← back 2
    edit (Ranged.swap? · i j)
  | tuck => do
    let top ← peek 1
    let i ← back 2
    edit (Ranged.insert? · i top)

namespace Shuffle

variable {op : Shuffle} {s left : Stack}

lemma required_le_of_eq_some (h : op.arrange? s = some left) : op.required ≤ s.length := by
  unfold arrange? at h
  split at h <;> cases h <;> simp [required]

lemma lt_required_of_eq_none (h : op.arrange? s = none) : s.length < op.required := by
  cases op <;>
    rcases s with - | ⟨a, - | ⟨b, - | ⟨c, - | ⟨d, - | ⟨e, - | ⟨f, s⟩⟩⟩⟩⟩⟩ <;>
      simp [arrange?, required] at h ⊢

lemma move_reverse (h : op.arrange? s = some left) :
    op.move s.reverse = some (.ok (), left.reverse) := by
  unfold arrange? at h
  split at h <;> cases h <;>
    simp only [List.reverse_cons, List.append_assoc, List.cons_append, List.nil_append] <;>
    generalize List.reverse _ = row <;>
    simp [move, Positional.back_append, Positional.peek_append, Ranged.slice?_append,
      Ranged.drain?_append, Ranged.remove?_append, Ranged.insert?_append, Ranged.swap?_append,
      Ranged.rotate?_append]

end Shuffle

namespace Positional

variable {name : String} {row : List Bytes} {a b c : Bytes}

/-- A computation has the results of an effect: it always has one. -/
def Computes (f : Positional String) (e : Effect) : Prop :=
  ∀ s : Stack, f s.reverse = some ((e s).1, (e s).2.reverse)

def shuffle (op : Shuffle) (name : String) : Positional String := do
  require name op.required
  op.move
  return s!"{name}: {op.log}"

lemma computes_shuffle (op : Shuffle) : Computes (shuffle op name) (op.effect name) := by
  intro s
  rcases h : op.arrange? s with - | left
  · have hlt : s.reverse.length < op.required := by
      rw [List.length_reverse]
      exact Shuffle.lt_required_of_eq_none h
    simp [shuffle, Shuffle.effect, h, require_of_lt hlt, Effect.missing]
  · have hle : op.required ≤ s.reverse.length := by
      rw [List.length_reverse]
      exact Shuffle.required_le_of_eq_some h
    simp [shuffle, Shuffle.effect, h, require_of_le hle, Shuffle.move_reverse h]

/-! ### Operands

An effect on the items at the top is computed while they are still on the row. -/

section Operands

variable {body : Positional String}

lemma computes_one {f : Bytes → Reply}
    (h : ∀ row a, body (row ++ [a]) = some ((f a).1, row ++ (f a).2.reverse)) :
    Computes (do require name 1; body) (Effect.one name f)
  | [] => rfl
  | a :: s => by simp [Effect.one, require_of_le, h]

lemma computes_two {f : Bytes → Bytes → Reply}
    (h : ∀ row b a, body (row ++ [b, a]) = some ((f a b).1, row ++ (f a b).2.reverse)) :
    Computes (do require name 2; body) (Effect.two name f)
  | [] => rfl
  | [_] => rfl
  | a :: b :: s => by simp [Effect.two, require_of_le, h]

lemma computes_three {f : Bytes → Bytes → Bytes → Reply}
    (h : ∀ row c b a,
      body (row ++ [c, b, a]) = some ((f a b c).1, row ++ (f a b c).2.reverse)) :
    Computes (do require name 3; body) (Effect.three name f)
  | [] => rfl
  | [_] => rfl
  | [_, _] => rfl
  | a :: b :: c :: s => by simp [Effect.three, require_of_le, h]

end Operands

def popNumber : Positional Int := do return Number.decode (← pop)

/-- Takes an index off, or refuses and leaves it. -/
def popIndex (name : String) : Positional Nat := do
  match Effect.index? (← peek 1) with
  | none => refuse (.stackOperation (.operandOutOfRange name))
  | some n =>
    let _ ← pop
    return n

@[simp] lemma peek_top : peek 1 (row ++ [a]) = some (.ok a, row ++ [a]) :=
  peek_append (Nat.le_refl _) rfl

lemma peek_top_two : peek 1 (row ++ [b, a]) = some (.ok a, row ++ [b, a]) :=
  peek_append (Nat.le_add_left _ _) rfl

lemma peek_top_three : peek 1 (row ++ [c, b, a]) = some (.ok a, row ++ [c, b, a]) :=
  peek_append (Nat.le_add_left _ _) rfl

lemma popNumber_of_pop {left : List Bytes} (h : pop row = some (.ok a, left)) :
    popNumber row = some (.ok (Number.decode a), left) := by
  simp [popNumber, h]

@[simp] lemma popNumber_append : popNumber (row ++ [a]) = some (.ok (Number.decode a), row) :=
  popNumber_of_pop (pop_append row a)

@[simp] lemma popNumber_append_two :
    popNumber (row ++ [b, a]) = some (.ok (Number.decode a), row ++ [b]) :=
  popNumber_of_pop (pop_append_two row b a)

@[simp] lemma popNumber_append_three :
    popNumber (row ++ [c, b, a]) = some (.ok (Number.decode a), row ++ [c, b]) :=
  popNumber_of_pop (pop_append_three row c b a)

lemma popIndex_of_none (hpeek : peek 1 row = some (.ok a, row)) (h : Effect.index? a = none) :
    popIndex name row = some (.error (.stackOperation (.operandOutOfRange name)), row) := by
  simp [popIndex, hpeek, h]

lemma popIndex_of_some {left : List Bytes} {n : Nat} (hpeek : peek 1 row = some (.ok a, row))
    (hpop : pop row = some (.ok a, left)) (h : Effect.index? a = some n) :
    popIndex name row = some (.ok n, left) := by
  simp [popIndex, hpeek, hpop, h]

/-! ### Truth values -/

/-- Takes the top item off, and refuses if it is false. -/
def verifyTop (name : String) : Positional Unit := do
  if !Number.truthy (← pop) then refuse (.verifyFailed (.falseValue name))

/-- Pushes the outcome of a test and, where the opcode verifies, takes it off again. -/
def conclude (name : String) (verify value : Bool) (log : String) : Positional String := do
  push (Number.ofBool value)
  if verify then
    verifyTop name
    return s!"{name}: passed"
  else return log

lemma conclude_apply (verify value : Bool) (log : String) (row : List Bytes) :
    conclude name verify value log row =
      some ((Reply.verdict name verify value log).1,
        row ++ (Reply.verdict name verify value log).2.reverse) := by
  have htruthy : Number.truthy (Number.ofBool value) = value := by cases value <;> rfl
  cases verify with
  | false => simp [conclude, Reply.verdict]
  | true => cases value <;> simp [conclude, verifyTop, htruthy, Reply.verdict]

def verify (name : String) : Positional String := do
  require name 1
  verifyTop name
  return s!"{name}: passed"

lemma computes_verify : Computes (verify name) (Machine.verifyEffect name) := by
  refine computes_one fun row a => ?_
  rcases h : Number.truthy a <;> simp [verifyTop, Reply.verdict, h]

/-! ### Looking at items -/

def ifDup (name : String) : Positional String := do
  require name 1
  let top ← peek 1
  if Number.truthy top then
    push top
    return s!"{name}: duplicated true value"
  else return s!"{name}: false value not duplicated"

lemma computes_ifDup : Computes (ifDup name) (Effect.ifDup name) := by
  refine computes_one fun row a => ?_
  rcases h : Number.truthy a <;> simp [h]

def depth (name : String) : Positional String := do
  let n ← len
  push (Number.encode n)
  return s!"{name}: {n}"

lemma computes_depth : Computes (depth name) (Effect.depth name) := by
  intro s
  simp [depth, Effect.depth]

def size (name : String) : Positional String := do
  require name 1
  let n := (← peek 1).length
  push (Number.encode n)
  return s!"{name}: {n} bytes"

lemma computes_size : Computes (size name) (Effect.size name) := by
  refine computes_one fun row a => ?_
  simp

/-- Brings the item so far below the top one to the top. -/
def pick (name : String) (move : Bool) : Positional String := do
  require name 2
  let index ← peek 1
  let below ← back 1
  match Number.decodeBounded? index with
  | none => refuse (.stackOperation (.indexOutOfRange name))
  | some n =>
    if n < 0 ∨ below ≤ n.toNat then refuse (.stackOperation (.indexOutOfRange name))
    else
      let _ ← pop
      let last ← back 1
      let i ← inRange (Ranged.minus? last n.toNat)
      push (← if move then take (Ranged.remove? · i) else look (·[i]?))
      return s!"{name}: item {n} to top"

lemma getElem?_reverse_sub {s : Stack} {n : Nat} (h : n < s.length) :
    s.reverse[s.length - 1 - n]? = s[n]? := by
  rw [List.getElem?_reverse (by omega)]
  congr 1
  omega

lemma eraseIdx_reverse_sub {s : Stack} {n : Nat} (h : n < s.length) :
    s.reverse.eraseIdx (s.length - 1 - n) = (s.eraseIdx n).reverse := by
  rw [List.eraseIdx_eq_take_drop_succ, List.eraseIdx_eq_take_drop_succ, List.take_reverse,
    List.drop_reverse, ← List.reverse_append]
  congr 3 <;> omega

lemma computes_pick (move : Bool) : Computes (pick name move) (Effect.pick name move) := by
  intro s
  rcases s with - | ⟨index, - | ⟨x, s⟩⟩
  · rfl
  · rfl
  · have hrow : 2 ≤ ((x :: s).reverse ++ [index]).length := by simp
    rw [List.reverse_cons]
    simp only [Effect.pick]
    generalize x :: s = below at hrow ⊢
    have hback : back 1 (below.reverse ++ [index]) =
        some (.ok below.length, below.reverse ++ [index]) := by
      simp [back_append]
    rcases hn : Number.decodeBounded? index with - | n
    · simp [pick, require_of_le hrow, hback, hn, Reply.stackFault]
    · by_cases hneg : n < 0
      · simp [pick, require_of_le hrow, hback, hn, hneg, Reply.stackFault]
      · rcases hget : below[n.toNat]? with - | a
        · have hle : below.length ≤ n.toNat := List.getElem?_eq_none_iff.1 hget
          simp [pick, require_of_le hrow, hback, hn, hneg, hle, Reply.stackFault]
        · -- the positions are counted from the bottom, so the differences must not fall below
          -- zero
          have hlt : n.toNat < below.length := (List.getElem?_eq_some_iff.1 hget).1
          have hlast : back 1 below.reverse = some (.ok (below.length - 1), below.reverse) := by
            simp [back, Ranged.minus?_of_le (show 1 ≤ below.length by omega)]
          have hsub : Ranged.minus? (below.length - 1) n.toNat =
              some (below.length - 1 - n.toNat) := Ranged.minus?_of_le (by omega)
          cases move <;>
            simp [pick, require_of_le hrow, hback, hn, hneg, Nat.not_le.2 hlt, hlast, hsub,
              Ranged.remove?, getElem?_reverse_sub hlt, eraseIdx_reverse_sub hlt, hget]

/-! ### Bytes -/

def pushItem (name : String) (item : Bytes) : Positional String := do
  push item
  return s!"{name}: {shownBytes item}"

@[simp] lemma pushItem_apply (item : Bytes) (row : List Bytes) :
    pushItem name item row =
      some ((Reply.item name item).1, row ++ (Reply.item name item).2.reverse) := by
  simp [pushItem, Reply.item]

def equal (name : String) (verify : Bool) : Positional String := do
  require name 2
  let b ← pop
  let a ← pop
  let sign := if a = b then "==" else "!="
  conclude name verify (a == b) s!"{name}: {shownBytes a} {sign} {shownBytes b}"

lemma computes_equal (verify : Bool) : Computes (equal name verify) (Effect.equal name verify) := by
  refine computes_two fun row b a => ?_
  simp [conclude_apply]

def digest (op : DigestOp) (name : String) : Positional String := do
  require name 1
  let digest := op.eval (← pop)
  push digest
  return s!"{name}: {Hex.encode digest}"

lemma computes_digest (op : DigestOp) : Computes (digest op name) (op.effect name) := by
  refine computes_one fun row a => ?_
  simp

def concat (name : String) : Positional String := do
  require name 2
  let b ← pop
  let a ← pop
  if maxItemSize < a.length + b.length then
    refuse (.pushSize (a.length + b.length) maxItemSize)
  else pushItem name (a ++ b)

lemma computes_concat : Computes (concat name) (Effect.concat name) := by
  refine computes_two fun row b a => ?_
  by_cases h : maxItemSize < b.length + a.length <;> simp [h]

def substring (name : String) : Positional String := do
  require name 3
  let size ← popIndex name
  let start ← popIndex name
  let data ← pop
  if data.length < start + size then refuse (.stackOperation (.rangeExceedsOperand name))
  else pushItem name (← inRange (Ranged.slice? data start (start + size)))

lemma slice?_add {data : Bytes} {start size : Nat} (h : start + size ≤ data.length) :
    Ranged.slice? data start (start + size) = some ((data.drop start).take size) := by
  rw [Ranged.slice?, if_pos ⟨Nat.le_add_right _ _, h⟩, List.drop_take, Nat.add_sub_cancel_left]

lemma computes_substring : Computes (substring name) (Effect.substring name) := by
  refine computes_three fun row data start size => ?_
  rcases hsize : Effect.index? size with - | n
  · simp [popIndex_of_none peek_top_three hsize, Reply.stackFault]
  · have hpop : popIndex name (row ++ [data, start, size]) = some (.ok n, row ++ [data, start]) :=
      popIndex_of_some peek_top_three (pop_append_three row data start size) hsize
    rcases hstart : Effect.index? start with - | i
    · simp [hpop, popIndex_of_none peek_top_two hstart, Reply.stackFault]
    · have hpop' : popIndex name (row ++ [data, start]) = some (.ok i, row ++ [data]) :=
        popIndex_of_some peek_top_two (pop_append_two row data start) hstart
      by_cases h : data.length < i + n
      · simp [hpop, hpop', h, Reply.stackFault]
      · simp [hpop, hpop', h, slice?_add (Nat.not_lt.1 h)]

def keep (name : String) (left : Bool) : Positional String := do
  require name 2
  let size ← popIndex name
  let data ← pop
  if data.length < size then refuse (.stackOperation (.rangeExceedsOperand name))
  else if left then pushItem name (← inRange (Ranged.slice? data 0 size))
  else do
    let start ← inRange (Ranged.minus? data.length size)
    pushItem name (← inRange (Ranged.slice? data start data.length))

lemma slice?_zero {data : Bytes} {size : Nat} (h : size ≤ data.length) :
    Ranged.slice? data 0 size = some (data.take size) := by
  rw [Ranged.slice?, if_pos ⟨Nat.zero_le _, h⟩, List.drop_zero]

lemma slice?_length {data : Bytes} {start : Nat} (h : start ≤ data.length) :
    Ranged.slice? data start data.length = some (data.drop start) := by
  rw [Ranged.slice?, if_pos ⟨h, Nat.le_refl _⟩, List.take_length]

lemma computes_keep (left : Bool) : Computes (keep name left) (Effect.keep name left) := by
  refine computes_two fun row data size => ?_
  rcases hsize : Effect.index? size with - | n
  · simp [popIndex_of_none peek_top_two hsize, Reply.stackFault]
  · have hpop : popIndex name (row ++ [data, size]) = some (.ok n, row ++ [data]) :=
      popIndex_of_some peek_top_two (pop_append_two row data size) hsize
    by_cases h : data.length < n
    · simp [hpop, h, Reply.stackFault]
    · have hle : n ≤ data.length := Nat.not_lt.1 h
      cases left with
      | true => simp [hpop, h, slice?_zero hle]
      | false =>
        simp [hpop, h, Ranged.minus?_of_le hle, slice?_length (Nat.sub_le data.length n)]

def invert (name : String) : Positional String := do
  require name 1
  let data ← pop
  pushItem name (data.map (~~~ ·))

lemma computes_invert : Computes (invert name) (Effect.invert name) := by
  refine computes_one fun row a => ?_
  simp

def bitwise (op : BitOp) (name : String) : Positional String := do
  require name 2
  let b ← pop
  let a ← pop
  if a.length = b.length then pushItem name (List.zipWith op.eval a b)
  else refuse (.stackOperation (.sizesDiffer name a.length b.length))

lemma computes_bitwise (op : BitOp) : Computes (bitwise op name) (op.effect name) := by
  refine computes_two fun row b a => ?_
  by_cases h : b.length = a.length <;> simp [h, Reply.stackFault]

/-! ### Numbers -/

def unary (op : UnaryOp) (name : String) : Positional String := do
  require name 1
  let n ← popNumber
  let result := op.eval n
  push (Number.encode result)
  return s!"{name}: {n} -> {result}"

lemma computes_unary (op : UnaryOp) : Computes (unary op name) (op.effect name) := by
  refine computes_one fun row a => ?_
  simp

/-- The result of an operation, where a division by zero has none. -/
def compute? : BinaryOp → Int → Int → Option Int
  | .div, a, b => Ranged.quotient? a b
  | .mod, a, b => Ranged.remainder? a b
  | op, a, b => op.eval? a b

def divides : BinaryOp → Bool
  | .div | .mod => true
  | _ => false

def binary (op : BinaryOp) (name : String) : Positional String := do
  require name 2
  let b ← popNumber
  let a ← popNumber
  if divides op ∧ b = 0 then refuse (.stackOperation (.byZero name))
  else
    let result ← inRange (compute? op a b)
    push (Number.encode result)
    return s!"{name}: {a}, {b} -> {result}"

lemma eval?_eq_none_iff {op : BinaryOp} {a b : Int} :
    op.eval? a b = none ↔ divides op ∧ b = 0 := by
  cases op <;> simp [BinaryOp.eval?, divides]

lemma compute?_eq (op : BinaryOp) (a b : Int) : compute? op a b = op.eval? a b := by
  cases op <;> rfl

lemma computes_binary (op : BinaryOp) : Computes (binary op name) (op.effect name) := by
  refine computes_two fun row second first => ?_
  rcases h : op.eval? (Number.decode second) (Number.decode first) with - | result
  · have hzero := eval?_eq_none_iff.1 h
    simp only [h]
    simp [hzero, Reply.stackFault]
  · have hzero : ¬ (divides op ∧ Number.decode first = 0) := by
      rw [← eval?_eq_none_iff, h]
      exact Option.some_ne_none result
    simp [h, hzero, compute?_eq]

def numEqualVerify (name : String) : Positional String := do
  require name 2
  let b ← popNumber
  let a ← popNumber
  conclude name true (a == b) ""

lemma computes_numEqualVerify : Computes (numEqualVerify name) (Effect.numEqualVerify name) := by
  refine computes_two fun row b a => ?_
  simp [conclude_apply]

def within (name : String) : Positional String := do
  require name 3
  let max ← popNumber
  let min ← popNumber
  let x ← popNumber
  let inside : Bool := min ≤ x && x < max
  push (Number.ofBool inside)
  return s!"{name}: {x} in [{min}, {max}) is {inside}"

lemma computes_within : Computes (within name) (Effect.within name) := by
  refine computes_three fun row x min max => ?_
  simp

def shift (name : String) (left : Bool) : Positional String := do
  require name 2
  let bits ← popIndex name
  if Effect.maxShift < bits then refuse (.stackOperation (.shiftTooFar name bits))
  else
    let n ← popNumber
    let result := if left then n * (Nat.pow 2 bits : Nat) else n.fdiv (Nat.pow 2 bits : Nat)
    push (Number.encode result)
    return s!"{name}: {n} by {bits} -> {result}"

lemma computes_shift (left : Bool) : Computes (shift name left) (Effect.shift name left) := by
  refine computes_two fun row number bits => ?_
  rcases hbits : Effect.index? bits with - | k
  · simp [popIndex_of_none peek_top_two hbits, Reply.stackFault]
  · have hpop : popIndex name (row ++ [number, bits]) = some (.ok k, row ++ [number]) :=
      popIndex_of_some peek_top_two (pop_append_two row number bits) hbits
    by_cases h : Effect.maxShift < k
    · simp [hpop, h, Reply.stackFault]
    · cases left <;> simp [hpop, h]

end Positional

end CoinScript
