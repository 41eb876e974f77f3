import Mathlib.Tactic.Common
import CoinScript.Script

/-!
Instructions whose conditionals are properly nested, and the trees that they are the leaves of.

A conditional is opened by one instruction and closed by another, and is cut into segments by
those that turn it over. Counting open conditionals from the left decides whether instructions
are nested, and they are exactly if they are the leaves of a tree.
-/

namespace CoinScript

namespace Opcode

def notIf : Opcode := 0x64
def opElse : Opcode := 0x67

end Opcode

/-- What an instruction is to the conditionals around it. -/
inductive Mark where
  /-- Opens a conditional, on the truth of the top item or on its opposite. -/
  | opens (negated : Bool)
  /-- Ends a segment and starts the next. -/
  | alternates
  | closes
  | plain
  deriving DecidableEq

def Instruction.mark (i : Instruction) : Mark :=
  if i.data?.isSome then .plain
  else if i.opcode = Opcode.opIf then .opens false
  else if i.opcode = Opcode.notIf then .opens true
  else if i.opcode = Opcode.opElse then .alternates
  else if i.opcode = Opcode.endIf then .closes
  else .plain

/-! ### Counting -/

/-- Whether every conditional is closed at the end, and none is closed or turned over that is
not open. `depth` conditionals are open before the first instruction. -/
def nestedFrom : (depth : Nat) → List Instruction → Bool
  | depth, [] => depth == 0
  | depth, i :: is =>
    match i.mark, depth with
    | .plain, _ => nestedFrom depth is
    | .opens _, _ => nestedFrom (depth + 1) is
    | .alternates, 0 | .closes, 0 => false
    | .alternates, depth + 1 => nestedFrom (depth + 1) is
    | .closes, depth + 1 => nestedFrom depth is

/-- Whether conditionals are properly nested. -/
def Nested (is : List Instruction) : Prop := nestedFrom 0 is = true

instance (is : List Instruction) : Decidable (Nested is) :=
  inferInstanceAs (Decidable (nestedFrom 0 is = true))

/-! ### Trees -/

mutual

/-- Instructions in a row, among them whole conditionals. -/
inductive Flow where
  | done
  | plain (i : Instruction) (mark : i.mark = .plain) (next : Flow)
  | cond (opener : Instruction) (negated : Bool) (mark : opener.mark = .opens negated)
      (body : Segments) (next : Flow)

/-- The segments of a conditional, up to the instruction that closes it. -/
inductive Segments where
  | last (flow : Flow) (closer : Instruction) (mark : closer.mark = .closes)
  | more (flow : Flow) (turn : Instruction) (mark : turn.mark = .alternates) (rest : Segments)

end

mutual

def Flow.instructions : Flow → List Instruction
  | .done => []
  | .plain i _ next => i :: next.instructions
  | .cond opener _ _ body next => opener :: (body.instructions ++ next.instructions)

/-- The instructions of segments and of those between and behind them, in order. -/
def Segments.instructions : Segments → List Instruction
  | .last flow closer _ => flow.instructions ++ [closer]
  | .more flow turn _ rest => flow.instructions ++ turn :: rest.instructions

end

variable {depth : Nat} {i : Instruction} {is : List Instruction}

lemma nestedFrom_plain (h : i.mark = .plain) :
    nestedFrom depth (i :: is) = nestedFrom depth is := by
  simp only [nestedFrom, h]

lemma nestedFrom_opens {negated : Bool} (h : i.mark = .opens negated) :
    nestedFrom depth (i :: is) = nestedFrom (depth + 1) is := by
  simp only [nestedFrom, h]

lemma nestedFrom_alternates (h : i.mark = .alternates) :
    nestedFrom (depth + 1) (i :: is) = nestedFrom (depth + 1) is := by
  simp only [nestedFrom, h]

lemma nestedFrom_closes (h : i.mark = .closes) :
    nestedFrom (depth + 1) (i :: is) = nestedFrom depth is := by
  simp only [nestedFrom, h]

mutual

lemma Flow.nestedFrom_append (b : Flow) (depth : Nat) (is : List Instruction) :
    nestedFrom depth (b.instructions ++ is) = nestedFrom depth is := by
  cases b with
  | done => rfl
  | plain i mark next =>
    rw [Flow.instructions, List.cons_append, nestedFrom_plain mark]
    exact next.nestedFrom_append depth is
  | cond opener negated mark body next =>
    rw [Flow.instructions, List.cons_append, List.append_assoc, nestedFrom_opens mark,
      body.nestedFrom_append]
    exact next.nestedFrom_append depth is

lemma Segments.nestedFrom_append (ss : Segments) (depth : Nat) (is : List Instruction) :
    nestedFrom (depth + 1) (ss.instructions ++ is) = nestedFrom depth is := by
  cases ss with
  | last b closer mark =>
    rw [Segments.instructions, List.append_assoc, b.nestedFrom_append]
    exact nestedFrom_closes mark
  | more b turn mark rest =>
    rw [Segments.instructions, List.append_assoc, b.nestedFrom_append, List.cons_append,
      nestedFrom_alternates mark]
    exact rest.nestedFrom_append depth is

end

/-- Where instructions go on behind a flow: they are at an end, or turn over or close the
conditional around it. -/
inductive Leaves : (depth : Nat) → List Instruction → Prop
  | ended : Leaves 0 []
  | turned {depth turn rest} (mark : turn.mark = .alternates)
      (nested : nestedFrom (depth + 1) rest = true) : Leaves (depth + 1) (turn :: rest)
  | closed {depth closer rest} (mark : closer.mark = .closes)
      (nested : nestedFrom depth rest = true) : Leaves (depth + 1) (closer :: rest)

/-- Instructions that start with a flow if they are nested. -/
def StartsWithFlow (is : List Instruction) : Prop :=
  ∀ depth, nestedFrom depth is = true →
    ∃ (b : Flow) (rest : List Instruction), is = b.instructions ++ rest ∧ Leaves depth rest

lemma exists_segments {n : Nat} (flow : ∀ is, is.length ≤ n → StartsWithFlow is)
    (hn : is.length ≤ n) (h : nestedFrom (depth + 1) is = true) :
    ∃ (ss : Segments) (rest : List Instruction),
      is = ss.instructions ++ rest ∧ nestedFrom depth rest = true := by
  induction hlen : is.length using Nat.strongRecOn generalizing is with
  | ind m ih =>
    obtain ⟨b, rest, rfl, hrest⟩ := flow is hn _ h
    cases hrest with
    | @closed _ closer rest mark nested =>
      exact ⟨.last b closer mark, rest, by simp [Segments.instructions], nested⟩
    | @turned _ turn rest mark nested =>
      rw [List.length_append, List.length_cons] at hn hlen
      obtain ⟨ss, rest', rfl, nested'⟩ := ih rest.length (by omega) (by omega) nested rfl
      exact ⟨.more b turn mark ss, rest', by simp [Segments.instructions], nested'⟩

lemma startsWithFlow_nil : StartsWithFlow [] := by
  intro depth h
  obtain rfl : depth = 0 := by simpa [nestedFrom] using h
  exact ⟨.done, [], rfl, .ended⟩

lemma startsWithFlow (n : Nat) (is : List Instruction) (hn : is.length ≤ n) :
    StartsWithFlow is := by
  induction n generalizing is with
  | zero =>
    obtain rfl := List.eq_nil_of_length_eq_zero (Nat.le_zero.1 hn)
    exact startsWithFlow_nil
  | succ n ih =>
    cases is with
    | nil => exact startsWithFlow_nil
    | cons i is =>
      intro depth h
      rw [List.length_cons] at hn
      cases mark : i.mark with
      | plain =>
        rw [nestedFrom_plain mark] at h
        obtain ⟨b, rest, rfl, hrest⟩ := ih is (by omega) depth h
        exact ⟨.plain i mark b, rest, rfl, hrest⟩
      | opens negated =>
        rw [nestedFrom_opens mark] at h
        -- the segments and what follows the conditional are both shorter than the whole
        obtain ⟨ss, rest, rfl, h'⟩ := exists_segments ih (by omega) h
        rw [List.length_append] at hn
        obtain ⟨b, rest', rfl, hrest⟩ := ih rest (by omega) depth h'
        exact ⟨.cond i negated mark ss b, rest', by simp [Flow.instructions], hrest⟩
      | alternates =>
        cases depth with
        | zero => simp [nestedFrom, mark] at h
        | succ depth =>
          rw [nestedFrom_alternates mark] at h
          exact ⟨.done, _, rfl, .turned mark h⟩
      | closes =>
        cases depth with
        | zero => simp [nestedFrom, mark] at h
        | succ depth =>
          rw [nestedFrom_closes mark] at h
          exact ⟨.done, _, rfl, .closed mark h⟩

/-- **Instructions are nested** exactly if they are those of a tree. -/
theorem nested_iff : Nested is ↔ ∃ b : Flow, b.instructions = is := by
  constructor
  · intro h
    obtain ⟨b, rest, rfl, hrest⟩ := startsWithFlow is.length is (Nat.le_refl _) 0 h
    cases hrest
    exact ⟨b, (List.append_nil _).symm⟩
  · rintro ⟨b, rfl⟩
    have h := b.nestedFrom_append 0 []
    rw [List.append_nil] at h
    exact h

end CoinScript
