import CoinScript.Proofs.Machine.Multisig

/-!
Opcodes on their operands.

An opcode that works on the items on top of the stack answers in the same way wherever they lie: it
puts some items in their place or refuses them, whatever is below and whatever else there is in the
machine. So what opcodes make of operands can be said, and laws between opcodes be stated, without
any machine.
-/

namespace CoinScript

/-- An opcode does what it does of its own: it is enabled, and no handler is in its place. -/
structure OpcodeTable.Own (t : OpcodeTable) (op : Opcode) : Prop where
  enabled : t.isDisabled op = false
  own : t.handler? op = none

namespace Env

variable (env : Env) (op : Opcode)

/-- Wherever an opcode is executed on some operands, the top first, its answer is the same, the
items that it leaves lie in the place of the operands, and nothing else changes but the count. -/
def Answers (args : List Bytes) (reply : Reply) : Prop :=
  ∀ (m : Machine) (offset : Nat) (below : Stack), m.executing = true → m.opCount < maxOps →
    m.stack = args ++ below → m.execute env ⟨op, none, offset⟩ =
      (reply.1, { m with stack := reply.2 ++ below, opCount := m.opCount + 1 })

/-- Wherever an opcode is executed on some operands, it puts other items in their place. -/
def Gives (args left : List Bytes) : Prop := ∃ log, env.Answers op args (.ok log, left)

/-- Wherever an opcode is executed on some operands, it puts one item in their place. -/
def Yields (args : List Bytes) (r : Bytes) : Prop := env.Gives op args [r]

/-- Wherever an opcode is executed on some operands, it fails. -/
def Refuses (args : List Bytes) (e : Fault) : Prop := ∃ left, env.Answers op args (.error e, left)

/-- Some words do what they do of their own. -/
def Has {Word : Type} (opcode : Word → Opcode) (words : List Word) : Prop :=
  ∀ w ∈ words, env.table.Own (opcode w)

variable {env op} {args left left' : List Bytes} {reply reply' : Reply} {e : Fault}

lemma Answers.unique (h : env.Answers op args reply) (h' : env.Answers op args reply') :
    reply = reply' := by
  have hops : ({ stack := args } : Machine).opCount < maxOps := Nat.zero_lt_succ _
  have hrun := h { stack := args } 0 [] rfl hops (List.append_nil _).symm
  have hrun' := h' { stack := args } 0 [] rfl hops (List.append_nil _).symm
  rw [hrun, List.append_nil, List.append_nil, Prod.mk.injEq, Machine.mk.injEq] at hrun'
  exact Prod.ext hrun'.1 hrun'.2.1

lemma Gives.unique (h : env.Gives op args left) (h' : env.Gives op args left') : left = left' := by
  obtain ⟨log, hanswer⟩ := h
  obtain ⟨log', hanswer'⟩ := h'
  cases hanswer.unique hanswer'
  rfl

lemma Refuses.unique {e' : Fault} (h : env.Refuses op args e) (h' : env.Refuses op args e') :
    e = e' := by
  obtain ⟨left, hanswer⟩ := h
  obtain ⟨left', hanswer'⟩ := h'
  cases hanswer.unique hanswer'
  rfl

lemma Gives.not_refuses (h : env.Gives op args left) : ¬ env.Refuses op args e := by
  obtain ⟨log, hanswer⟩ := h
  rintro ⟨left', hanswer'⟩
  cases hanswer.unique hanswer'

lemma answers_of_effect {b : Builtin} {effect : Effect} (hown : env.table.Own op)
    (hop : Builtin.ofOpcode? op = some b) (hnumber : ∀ n, b ≠ .number n)
    (hrun : ∀ (m : Machine) offset,
      m.runBuiltin env (env.table.name op) offset b = m.onStack effect)
    (heffect : ∀ below, effect (args ++ below) = (reply.1, reply.2 ++ below)) :
    env.Answers op args reply := by
  intro m offset below hexecuting hops hstack
  have hruns : m.RunsAs env ⟨op, none, offset⟩ b :=
    ⟨hown.enabled, hexecuting, hown.own, hop⟩
  have hproper : Instruction.IsProper ⟨op, none, offset⟩ :=
    Instruction.isProper_mk_none.2
      (UInt8.lt_trans (show Opcode.push4 < Opcode.op16 by decide) (Builtin.op16_lt hop hnumber))
  rw [Machine.execute_of_runsAs hruns hnumber hproper, if_neg (by omega), hrun]
  refine Machine.onStack_eq ?_
  change effect m.stack = _
  rw [hstack, heffect]

end Env

def unrestricted : Env where
  table := OpcodeTable.standard.setDisabled []
  setting := {}
  phase := .standalone
  script := ⟨[]⟩

end CoinScript
