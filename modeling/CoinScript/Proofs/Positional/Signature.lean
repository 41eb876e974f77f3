import CoinScript.Proofs.Machine.Builtin
import CoinScript.Proofs.Positional.Effects
import CoinScript.Proofs.Script.Proper

/-!
Signature checks by position.

The script code is a slice of the script, and what is removed from it is found by the places of its
instructions. A multiple check goes by three depths, each computed from the number of keys or
signatures found at the one before, and a loop counts down the keys that are left. The loop has no
result when it would count below zero; since there are never more signatures than keys left, it
always has one.
-/

namespace CoinScript

/-! ### Script code -/

namespace Script

variable {s : Script}

/-- The bytes of a script from a place on. -/
def from? (s : Script) (start : Nat) : Option Script :=
  (Ranged.slice? s.bytes start s.bytes.length).map Script.mk

/-- The bytes of the instructions that pass a test, each found by its place. -/
def retain? (keep : Instruction → Bool) (s : Script) : Option (Except Fault Script) :=
  match s.instructions with
  | .error e => some (.error e)
  | .ok is => do
    let parts ← (is.filter keep).mapM fun i =>
      Ranged.slice? s.bytes i.offset (i.offset + i.size)
    return .ok ⟨parts.flatten⟩

lemma from?_eq {start : Nat} (h : start ≤ s.bytes.length) :
    s.from? start = some ⟨s.bytes.drop start⟩ := by
  rw [from?, Positional.slice?_length h, Option.map_some]

lemma slice?_instruction {is : List Instruction} (h : s.instructions = .ok is) {i : Instruction}
    (hi : i ∈ is) : Ranged.slice? s.bytes i.offset (i.offset + i.size) = some i.encode := by
  have hcut : (s.bytes.drop i.offset).take i.size = i.encode := slice_eq_encode h hi
  have hlen : ((s.bytes.drop i.offset).take i.size).length = i.size := by
    rw [hcut, Instruction.length_encode]
  have hpos : 0 < i.size := i.size_pos
  have hle : i.offset + i.size ≤ s.bytes.length := by
    rw [List.length_take, List.length_drop] at hlen
    omega
  rw [Positional.slice?_add hle, hcut]

lemma mapM_eq_some_map {α β : Type} {f : α → Option β} {g : α → β} {xs : List α}
    (h : ∀ a ∈ xs, f a = some (g a)) : xs.mapM f = some (xs.map g) := by
  induction xs with
  | nil => rfl
  | cons a xs ih =>
    have hrest : xs.mapM f = some (xs.map g) := ih fun b hb => h b (List.mem_cons_of_mem a hb)
    simp [List.mapM_cons, h a List.mem_cons_self, hrest]

lemma retain?_eq (keep : Instruction → Bool) (s : Script) :
    s.retain? keep = some (s.filter keep) := by
  rcases h : s.instructions with e | is
  · simp only [retain?, filter, h]
    rfl
  · have hparts : (is.filter keep).mapM
        (fun i => Ranged.slice? s.bytes i.offset (i.offset + i.size)) =
          some ((is.filter keep).map Instruction.encode) :=
      mapM_eq_some_map fun i hi => slice?_instruction h (List.mem_filter.1 hi).1
    simp only [retain?, filter_of_instructions h, h, hparts, List.flatMap_def]
    rfl

end Script

namespace Positional

variable {name : String} {row : List Bytes} {a : Bytes} {setting : Setting} {script : Script}
  {start : Nat}

def removePush (code : Script) (data : Bytes) : Positional Script := do
  ofExcept (← inRange (code.retain? fun i =>
    !(i.opcode == Opcode.canonicalPush data.length && i.data? == some data)))

@[simp] lemma removePush_apply (code : Script) (data : Bytes) (row : List Bytes) :
    removePush code data row = some (code.removePush data, row) := by
  simp only [removePush, Script.retain?_eq, bind_apply, inRange_some, ofExcept_apply]
  rfl

def checkSig (setting : Setting) (script : Script) (start : Nat) (name : String)
    (verify : Bool) : Positional String := do
  require name 2
  let tx ← ofExcept (setting.transaction name)
  let key ← pop
  let signature ← pop
  let code ← removePush (← inRange (script.from? start)) signature
  let valid ← ofExcept (checkSignature signature key code tx setting.input)
  conclude name verify valid (s!"{name}: signature " ++ Signature.word valid)

lemma computes_checkSig (h : start ≤ script.bytes.length) (verify : Bool) :
    Computes (checkSig setting script start name verify)
      (Effect.checkSig setting ⟨script.bytes.drop start⟩ name verify) := by
  refine computes_two fun row signature key => ?_
  rcases htx : setting.transaction name with e | tx
  · simp
  · rcases hcode : Script.removePush ⟨script.bytes.drop start⟩ signature with e | code
    · simp [Script.from?_eq h, hcode]
    · rcases hvalid : checkSignature signature key code tx setting.input with e | valid
      · simp [Script.from?_eq h, hcode, hvalid]
      · simp [Script.from?_eq h, hcode, hvalid, conclude_apply]

/-! ### Multiple checks -/

/-- Takes the pushes of so many signatures, the first at a depth, out of the script code. -/
def strip : (count depth : Nat) → Script → Positional Script
  | 0, _, code => return code
  | count + 1, depth, code => do
    let code ← removePush code (← peek depth)
    strip count (depth + 1) code

/-- Tries keys against signatures. It counts down the keys that are left, of which there must be
one whenever a signature is. -/
def matchFrom (check : Bytes → Bytes → Except Fault Bool) :
    (keysLeft signaturesLeft key signature : Nat) → Positional Bool
  | _, 0, _, _ => return true
  | 0, _ + 1, _, _ => inRange none
  | keysLeft + 1, signaturesLeft + 1, key, signature => do
    if ← ofExcept (check (← peek signature) (← peek key)) then
      if keysLeft < signaturesLeft then return false
      else matchFrom check keysLeft signaturesLeft (key + 1) (signature + 1)
    else if keysLeft < signaturesLeft + 1 then return false
    else matchFrom check keysLeft (signaturesLeft + 1) (key + 1) signature

def keyCount (name : String) : Positional Nat := do
  require name 1
  match Signature.count? (← peek 1) maxKeys with
  | none => refuse (.stackOperation (.badCount name true))
  | some n => return n

/-- The number of signatures below so many keys, each of which and one more item must be there. -/
def sigCount (name : String) (keyCount : Nat) : Positional Nat := do
  require name (2 + keyCount)
  match Signature.count? (← peek (2 + keyCount)) keyCount with
  | none => refuse (.stackOperation (.badCount name false))
  | some n =>
    require name (3 + keyCount + n)
    return n

/-- Checks signatures against keys, of which there are so many below their number. -/
def checkMultisig (setting : Setting) (script : Script) (start : Nat) (name : String)
    (verify : Bool) (keyCount : Nat) : Positional String := do
  let sigCount ← sigCount name keyCount
  let firstSig := 3 + keyCount
  let last := firstSig + sigCount
  let tx ← ofExcept (setting.transaction name)
  let code ← strip sigCount firstSig (← inRange (script.from? start))
  let valid ← matchFrom (fun sig key => checkSignature sig key code tx setting.input)
    keyCount sigCount 2 firstSig
  let dummy ← peek last
  let below ← back last
  edit fun row => some (row.take below)
  if setting.flags.has Flags.nullDummy && !dummy.isEmpty then
    refuse (.stackOperation (.dummyNotEmpty name))
  else
    conclude name verify valid
      (s!"{name}: {sigCount} of {keyCount} signature(s) " ++ Signature.word valid)

/-- Items that lie below each other, the first at a depth. -/
def At (row : List Bytes) (depth : Nat) (items : List Bytes) : Prop :=
  ∀ k a, items[k]? = some a → peek (depth + k) row = some (.ok a, row)

lemma At.head {depth : Nat} {items : List Bytes} (h : At row depth (a :: items)) :
    peek depth row = some (.ok a, row) := h 0 a rfl

lemma At.tail {depth : Nat} {items : List Bytes} (h : At row depth (a :: items)) :
    At row (depth + 1) items := fun k b hb => by
  have hk := h (k + 1) b hb
  rwa [show depth + (k + 1) = depth + 1 + k by omega] at hk

lemma at_reverse (s : Stack) (depth : Nat) : At s.reverse (depth + 1) (s.drop depth) := by
  intro k a hk
  rw [List.getElem?_drop] at hk
  have hlt : depth + k < s.length := (List.getElem?_eq_some_iff.1 hk).1
  have hsub : Ranged.minus? s.length (depth + 1 + k) = some (s.length - 1 - (depth + k)) := by
    rw [Ranged.minus?_of_le (by omega)]
    congr 1
    omega
  simp [peek, back, hsub, getElem?_reverse_sub hlt, hk]

lemma At.left {depth : Nat} {xs ys : List Bytes} (h : At row depth (xs ++ ys)) :
    At row depth xs := fun k a hk => by
  have hlt : k < xs.length := (List.getElem?_eq_some_iff.1 hk).1
  exact h k a (by rwa [List.getElem?_append_left hlt])

lemma At.right {depth : Nat} {xs ys : List Bytes} (h : At row depth (xs ++ ys)) :
    At row (depth + xs.length) ys := fun k a hk => by
  rw [Nat.add_assoc]
  exact h (xs.length + k) a (by rwa [Ranged.getElem?_append_add])

lemma strip_apply {depth : Nat} {signatures : List Bytes} (h : At row depth signatures)
    (code : Script) : strip signatures.length depth code row =
      some (Signature.strip code signatures, row) := by
  induction signatures generalizing depth code with
  | nil => rfl
  | cons sig sigs ih =>
    rcases hcode : code.removePush sig with e | left
    · simp [strip, h.head, hcode, Signature.strip]
    · simp [strip, h.head, hcode, ih h.tail, Signature.strip]

lemma matchFrom_apply {check : Bytes → Bytes → Except Fault Bool} {key signature : Nat}
    {keys signatures : List Bytes} (hkeys : At row key keys) (hsigs : At row signature signatures)
    (hle : signatures.length ≤ keys.length) :
    matchFrom check keys.length signatures.length key signature row =
      some (Signature.matchAll check signatures keys, row) := by
  induction keys generalizing key signature signatures with
  | nil =>
    cases signatures with
    | nil => rfl
    | cons sig sigs => cases hle
  | cons k ks ih =>
    cases signatures with
    | nil => rfl
    | cons sig sigs =>
      rw [List.length_cons, List.length_cons, matchFrom, Signature.matchAll]
      rcases hcheck : check sig k with e | valid
      · simp [hkeys.head, hsigs.head, hcheck]
      · cases valid with
        | true =>
          by_cases hlt : ks.length < sigs.length
          · simp [hkeys.head, hsigs.head, hcheck, hlt]
            rfl
          · simp [hkeys.head, hsigs.head, hcheck, hlt,
              ih hkeys.tail hsigs.tail (Nat.not_lt.1 hlt)]
        | false =>
          by_cases hlt : ks.length < sigs.length + 1
          · simp [hkeys.head, hsigs.head, hcheck, hlt]
            rfl
          · -- the signature stays for the next key
            have hrest := ih hkeys.tail hsigs (Nat.not_lt.1 hlt)
            rw [List.length_cons] at hrest
            simp [hkeys.head, hsigs.head, hcheck, hlt, hrest]

/-- What a multiple check takes off a stack, as it lies in the row. -/
structure Found (s : Stack) (keyCount : Nat) (ops : MultisigOperands) : Prop where
  sigs_le : ops.signatures.length ≤ ops.keys.length
  length_keys : ops.keys.length = keyCount
  keys : At s.reverse 2 ops.keys
  signatures : At s.reverse (3 + keyCount) ops.signatures
  dummy : peek (3 + keyCount + ops.signatures.length) s.reverse = some (.ok ops.dummy, s.reverse)
  below : s.drop (3 + keyCount + ops.signatures.length) = ops.below
  depth : 3 + keyCount + ops.signatures.length ≤ s.length

lemma operands_of_drop {s : Stack} {keyCount : Nat} {count : Bytes} {rest : Stack}
    (h : s.tail.drop keyCount = count :: rest) :
    s.length = 2 + keyCount + rest.length ∧ At s.reverse (2 + keyCount) (count :: rest) := by
  have hlen := congrArg List.length h
  rw [List.length_drop, List.length_tail, List.length_cons] at hlen
  have hat := at_reverse s (1 + keyCount)
  rw [← List.drop_drop, List.drop_one, h, Nat.add_right_comm] at hat
  exact ⟨by omega, hat⟩

lemma sigCount_of_error {s : Stack} {keyCount : Nat} {e : Fault}
    (h : MultisigOperands.take name keyCount s.tail = .error e) :
    sigCount name keyCount s.reverse = some (.error e, s.reverse) := by
  unfold MultisigOperands.take at h
  rcases hdrop : s.tail.drop keyCount with - | ⟨count, rest⟩
  · simp only [hdrop, Except.error.injEq] at h
    have hlt : s.reverse.length < 2 + keyCount := by
      have hle : s.tail.length ≤ keyCount := List.drop_eq_nil_iff.1 hdrop
      rw [List.length_tail] at hle
      rw [List.length_reverse]
      omega
    simp [sigCount, require_of_lt hlt, h]
  · obtain ⟨hlen, hops⟩ := operands_of_drop hdrop
    have hrequire : require name (2 + keyCount) s.reverse = some (.ok (), s.reverse) :=
      require_of_le (by rw [List.length_reverse]; omega)
    rcases hcount : Signature.count? count keyCount with - | n
    · simp only [hdrop, hcount, Except.error.injEq] at h
      simp [sigCount, hrequire, hops.head, hcount, h]
    · rcases hrest : rest.drop n with - | ⟨dummy, below⟩
      · simp only [hdrop, hcount, hrest, Except.error.injEq] at h
        have hshort : rest.length ≤ n := List.drop_eq_nil_iff.1 hrest
        have hlt : s.reverse.length < 3 + keyCount + n := by
          rw [List.length_reverse]
          omega
        simp [sigCount, hrequire, hops.head, hcount, require_of_lt hlt, h]
      · simp [hdrop, hcount, hrest] at h

lemma found_of_take {s : Stack} {keyCount : Nat} {ops : MultisigOperands}
    (h : MultisigOperands.take name keyCount s.tail = .ok ops) :
    Found s keyCount ops ∧
      sigCount name keyCount s.reverse = some (.ok ops.signatures.length, s.reverse) := by
  obtain ⟨count, htail, rfl, hcount⟩ := MultisigOperands.take_eq_ok.1 h
  have hlen := congrArg List.length htail
  simp only [List.length_tail, List.length_append, List.length_cons] at hlen
  have hkeys : At s.reverse 2 s.tail := by
    have hat := at_reverse s 1
    rwa [List.drop_one] at hat
  rw [htail] at hkeys
  have hcounted := hkeys.right
  have hsigs := hcounted.tail
  rw [Nat.add_right_comm] at hsigs
  have hbelow : s.drop (3 + ops.keys.length + ops.signatures.length) = ops.below := by
    have hsum : 3 + ops.keys.length + ops.signatures.length =
        ops.keys.length + (ops.signatures.length + 1 + 1) + 1 := by omega
    rw [hsum, ← List.drop_tail, htail]
    simp
  -- below the two counts, the keys and the signatures there is still the dummy
  have hdepth : 3 + ops.keys.length + ops.signatures.length ≤ s.length := by omega
  refine ⟨⟨Signature.count?_le hcount, rfl, hkeys.left, hsigs.left, hsigs.right.head, hbelow,
    hdepth⟩, ?_⟩
  have hrequire : require name (2 + ops.keys.length) s.reverse = some (.ok (), s.reverse) :=
    require_of_le (by rw [List.length_reverse]; omega)
  have hrequire' : require name (3 + ops.keys.length + ops.signatures.length) s.reverse =
      some (.ok (), s.reverse) := require_of_le (by rwa [List.length_reverse])
  simp [sigCount, hrequire, hcounted.head, hcount, hrequire']

lemma computes_checkMultisig (h : start ≤ script.bytes.length) (verify : Bool) (keyCount : Nat) :
    Computes (checkMultisig setting script start name verify keyCount)
      (Effect.checkMultisig setting ⟨script.bytes.drop start⟩ name verify keyCount) := by
  intro s
  rcases htake : MultisigOperands.take name keyCount s.tail with e | ops
  · simp [checkMultisig, sigCount_of_error htake, Effect.checkMultisig, htake]
  · obtain ⟨found, hcount⟩ := found_of_take htake
    have hstrip := strip_apply found.signatures ⟨script.bytes.drop start⟩
    have hback : back (3 + keyCount + ops.signatures.length) s.reverse =
        some (.ok ops.below.length, s.reverse) := by
      have hsub : Ranged.minus? s.length (3 + keyCount + ops.signatures.length) =
          some ops.below.length := by
        rw [Ranged.minus?_of_le found.depth, ← found.below, List.length_drop]
      simp [back, hsub]
    have hbelow : s.reverse.take ops.below.length = ops.below.reverse := by
      rw [← found.below, List.length_drop, List.take_reverse]
      have hdepth := found.depth
      congr 2
      omega
    simp only [Effect.checkMultisig, htake, Effect.multisigValid]
    rcases htx : setting.transaction name with e | tx
    · simp [checkMultisig, hcount, htx]
    · rcases hcode : Signature.strip ⟨script.bytes.drop start⟩ ops.signatures with e | code
      · simp [checkMultisig, hcount, htx, Script.from?_eq h, hstrip, hcode]
      · have hmatch (check : Bytes → Bytes → Except Fault Bool) :
            matchFrom check keyCount ops.signatures.length 2 (3 + keyCount) s.reverse =
              some (Signature.matchAll check ops.signatures ops.keys, s.reverse) := by
          rw [← matchFrom_apply found.keys found.signatures found.sigs_le, found.length_keys]
        rcases hvalid : Signature.matchAll
            (fun sig key => checkSignature sig key code tx setting.input)
            ops.signatures ops.keys with e | valid
        · simp [checkMultisig, hcount, htx, Script.from?_eq h, hstrip, hcode, hmatch, hvalid]
        · by_cases hdummy : setting.flags.has Flags.nullDummy = true ∧ ¬ ops.dummy = []
          · simp [checkMultisig, hcount, htx, Script.from?_eq h, hstrip, hcode, hmatch, hvalid,
              found.dummy, hback, hbelow, hdummy]
          · simp [checkMultisig, hcount, htx, Script.from?_eq h, hstrip, hcode, hmatch, hvalid,
              found.dummy, hback, hbelow, hdummy, conclude_apply, found.length_keys]

end Positional

end CoinScript
