import CoinScript.Proofs.Machine.Admission
import CoinScript.Proofs.Machine.Nesting
import CoinScript.Proofs.Verification.Protocol

/-!
Conditionals as structured control flow.

The machine keeps a stack of truth values and looks at all of them before each instruction. Here
scripts with properly nested conditionals are evaluated on their trees instead: a conditional
tests its item once and then runs every other segment. An evaluation knows of no open
conditionals; a segment that is not selected is only looked through for instructions that are
refused everywhere. Both ways end alike.
-/

namespace CoinScript

/-! ### Evaluation on trees -/

/-- What a run changes, apart from its open conditionals. -/
structure Store where
  stack : Stack := []
  altstack : Stack := []
  opCount : Nat := 0
  codeStart : Nat := 0

namespace Store

def machine (s : Store) (conditions : List Bool) : Machine where
  stack := s.stack
  altstack := s.altstack
  conditions := conditions
  opCount := s.opCount
  codeStart := s.codeStart

def skip (s : Store) (env : Env) (is : List Instruction) : Except Fault Store := do
  return { s with opCount := ← is.foldlM (fun ops i => i.admit env ops) s.opCount }

def test (s : Store) (name : String) (negated : Bool) : Except Fault (Bool × Store) :=
  match s.stack with
  | [] => .error (.missingOperands name 1)
  | a :: below =>
    if maxStackSize < below.length + s.altstack.length then
      .error (.stackSizeExceeded (below.length + s.altstack.length) maxStackSize)
    else .ok (Number.truthy a != negated, { s with stack := below })

end Store

/-- What a machine holds, apart from its open conditionals. -/
def Machine.store (m : Machine) : Store where
  stack := m.stack
  altstack := m.altstack
  opCount := m.opCount
  codeStart := m.codeStart

def Store.execute (s : Store) (env : Env) (i : Instruction) : Except Fault Store :=
  Machine.store <$> (s.machine []).after env i

mutual

/-- Evaluates a flow. -/
def Flow.eval (env : Env) : Flow → Store → Except Fault Store
  | .done, s => .ok s
  | .plain i _ next, s => do next.eval env (← s.execute env i)
  | .cond opener negated _ body next, s => do
    let s ← s.skip env [opener]
    let (holds, s) ← s.test (env.table.name opener.opcode) negated
    next.eval env (← body.eval env holds s)

/-- Evaluates a segment if it is selected, and then every other one that follows. -/
def Segments.eval (env : Env) : Segments → (selected : Bool) → Store → Except Fault Store
  | .last flow closer _, selected, s => do
    let s ← (if selected then flow.eval env s else s.skip env flow.instructions)
    s.skip env [closer]
  | .more flow turn _ rest, selected, s => do
    let s ← (if selected then flow.eval env s else s.skip env flow.instructions)
    rest.eval env (!selected) (← s.skip env [turn])

end

def Builtin.isConditional : Builtin → Bool
  | .branch _ | .otherwise | .endBranch => true
  | _ => false

namespace Machine

variable {env : Env} {i : Instruction} {m : Machine} {cs : List Bool}

/-! ### Opcodes that leave conditionals alone -/

def within (m : Machine) (cs : List Bool) : Machine := { m with conditions := cs }

lemma runBuiltin_within {b : Builtin} (hb : b.isConditional = false) {name : String}
    {offset : Nat} : (m.within cs).runBuiltin env name offset b =
      ((m.runBuiltin env name offset b).1, (m.runBuiltin env name offset b).2.within cs) := by
  rcases m with ⟨stack, altstack, conditions, opCount, codeStart⟩
  cases b with
  | branch negated => cases hb
  | otherwise => cases hb
  | endBranch => cases hb
  | toAltstack => cases stack <;> rfl
  | fromAltstack => cases altstack <;> rfl
  | checkMultisig verify =>
    cases stack with
    | nil => rfl
    | cons count below =>
      unfold runBuiltin checkMultisig
      cases hcount : Signature.count? count maxKeys with
      | none => simp [within, hcount]
      | some n =>
        by_cases hops : maxOps < opCount + n
        · simp [within, hcount, countOps, hops]
        · simp [within, hcount, countOps, hops, onStack, code]
  | _ => rfl

lemma named?_conditional {n : Nat} {b : Builtin} (h : Builtin.named? n = some b)
    (hb : b.isConditional = true) : n = 0x63 ∨ n = 0x64 ∨ n = 0x67 ∨ n = 0x68 := by
  unfold Builtin.named? at h
  split at h <;> cases h <;> simp_all [Builtin.isConditional]

lemma ofOpcode?_conditional {op : Opcode} {b : Builtin} (h : Builtin.ofOpcode? op = some b)
    (hb : b.isConditional = true) :
    op = Opcode.opIf ∨ op = Opcode.notIf ∨ op = Opcode.opElse ∨ op = Opcode.endIf := by
  unfold Builtin.ofOpcode? Builtin.smallNumber? at h
  split at h
  · cases h
    cases hb
  · split at h
    · cases h
      cases hb
    · have hn := named?_conditional h hb
      simp only [← UInt8.toNat_inj]
      exact hn

lemma isConditional_of_plain (hi : i.mark = .plain) (hd : i.data? = none) {b : Builtin}
    (h : Builtin.ofOpcode? i.opcode = some b) : b.isConditional = false := by
  by_contra hb
  rw [Bool.not_eq_false] at hb
  have hmark : i.mark ≠ .plain := by
    unfold Instruction.mark
    rcases ofOpcode?_conditional h hb with ho | ho | ho | ho <;> rw [hd, ho] <;> decide
  exact hmark hi

lemma perform_within (hi : i.mark = .plain) (hd : i.data? = none) :
    (m.within cs).perform env i.opcode i.offset =
      ((m.perform env i.opcode i.offset).1, (m.perform env i.opcode i.offset).2.within cs) := by
  unfold perform
  cases env.table.handler? i.opcode with
  | some handler => cases handler <;> rfl
  | none =>
    cases hb : Builtin.ofOpcode? i.opcode with
    | none => rfl
    | some b => exact runBuiltin_within (isConditional_of_plain hi hd hb)

lemma quiet_within (o : Outcome) :
    Outcome.quiet (o.1, o.2.within cs) = (within · cs) <$> o.quiet := by
  rcases o with ⟨reply, m⟩
  cases reply <;> rfl

/-- **A plain instruction that runs** does so whichever conditionals are open. -/
lemma effect_within (hi : i.mark = .plain) (hm : m.executing = true) (hcs : cs.all id = true) :
    (m.within cs).effect env i = (within · cs) <$> m.effect env i := by
  have hcs' : (m.within cs).executing = true := hcs
  unfold effect skips
  cases hd : i.data? with
  | some data =>
    simp only [hm, hcs', if_true]
    rfl
  | none =>
    simp only [hm, hcs', Bool.not_true, Bool.false_and, Bool.false_eq_true, if_false]
    rw [perform_within hi hd, quiet_within]

lemma limited_within : (m.within cs).limited = (within · cs) <$> m.limited := by
  unfold limited
  have hsize : (m.within cs).size = m.size := rfl
  rw [hsize]
  split <;> rfl

end Machine

/-! ### Single instructions -/

variable {env : Env} {i : Instruction} {is js : List Instruction} {m m' : Machine} {s s' : Store}
  {cs : List Bool}

namespace Store

lemma skip_one : s.skip env [i] = (fun n => { s with opCount := n }) <$> i.admit env s.opCount := by
  unfold skip
  rw [List.foldlM_cons]
  cases i.admit env s.opCount <;> rfl

lemma skip_append (s : Store) (env : Env) (is js : List Instruction) :
    s.skip env (is ++ js) = s.skip env is >>= fun s => s.skip env js := by
  unfold skip
  rw [List.foldlM_append]
  cases is.foldlM (fun ops i => i.admit env ops) s.opCount <;> rfl

lemma skip_cons (s : Store) (env : Env) (i : Instruction) (is : List Instruction) :
    s.skip env (i :: is) = s.skip env [i] >>= fun s => s.skip env is :=
  skip_append s env [i] is

lemma skip_eq_ok (h : s.skip env is = .ok s') : ∃ n, s' = { s with opCount := n } := by
  unfold skip at h
  cases hn : is.foldlM (fun ops i => i.admit env ops) s.opCount with
  | error e =>
    rw [hn] at h
    cases h
  | ok n =>
    rw [hn] at h
    cases h
    exact ⟨n, rfl⟩

def size (s : Store) : Nat := s.stack.length + s.altstack.length

lemma size_of_skip (h : s.skip env is = .ok s') : s'.size = s.size := by
  obtain ⟨n, rfl⟩ := skip_eq_ok h
  rfl

lemma size_of_test {name : String} {negated : Bool} {p : Bool × Store}
    (h : s.test name negated = .ok p) : p.2.size ≤ maxStackSize := by
  unfold test at h
  split at h
  · cases h
  · split at h
    · cases h
    · rename_i hsize
      cases h
      exact Nat.not_lt.1 hsize

end Store

namespace Machine

lemma after_machine : (s.machine cs).after env i =
    s.skip env [i] >>= fun s => (s.machine cs).effect env i >>= limited := by
  rw [after_eq, Store.skip_one, bind_map_left]
  rfl

lemma limited_machine (h : s.size ≤ maxStackSize) : (s.machine cs).limited = .ok (s.machine cs) :=
  if_neg (Nat.not_lt.2 h)

lemma after_plain (hi : i.mark = .plain) (hcs : cs.all id = true) :
    (s.machine cs).after env i = (·.machine cs) <$> s.execute env i := by
  unfold Store.execute
  rw [after_machine, after_machine, Functor.map_map, map_bind]
  refine Except.bind_congr_ok fun s _ => ?_
  have hexec : (s.machine []).executing = true := rfl
  have heffect : (s.machine cs).effect env i = (within · cs) <$> (s.machine []).effect env i :=
    @effect_within env i (s.machine []) cs hi hexec hcs
  rw [heffect, bind_map_left, map_bind]
  refine Except.bind_congr_ok fun m' _ => ?_
  rw [limited_within]
  rfl

/-! ### Instructions in a branch that does not run -/

lemma refusal?_of_admit {ops n : Nat} (hd : i.data? = none) (h : i.admit env ops = .ok n) :
    env.refusal? i.opcode = none := by
  unfold Instruction.admit at h
  simp only [hd] at h
  generalize (if Opcode.op16 < i.opcode then ops + 1 else ops) = counted at h
  cases hr : env.refusal? i.opcode with
  | none => rfl
  | some e =>
    simp only [hr] at h
    split at h <;> cases h

lemma isConditional_eq_false {ops n : Nat} (hi : i.mark = .plain) (hd : i.data? = none)
    (h : i.admit env ops = .ok n) : i.opcode.isConditional = false := by
  have hver : i.opcode ≠ Opcode.verIf ∧ i.opcode ≠ Opcode.verNotIf := by
    have hr := refusal?_of_admit hd h
    unfold Env.refusal? at hr
    split at hr
    · cases hr
    · split at hr
      · cases hr
      · rename_i hver
        exact not_or.1 hver
  have hplain : i.opcode ≠ Opcode.opIf ∧ i.opcode ≠ Opcode.notIf ∧ i.opcode ≠ Opcode.opElse ∧
      i.opcode ≠ Opcode.endIf := by
    unfold Instruction.mark at hi
    refine ⟨?_, ?_, ?_, ?_⟩ <;> intro ho <;> rw [hd, ho] at hi <;> revert hi <;> decide
  -- the range holds six opcodes, and these are all of them
  unfold Opcode.isConditional
  simp only [ne_eq, ← UInt8.toNat_inj] at hver hplain
  rw [Bool.and_eq_false_iff, decide_eq_false_iff_not, decide_eq_false_iff_not,
    UInt8.le_iff_toNat_le, UInt8.le_iff_toNat_le]
  change ¬ 0x63 ≤ _ ∨ ¬ _ ≤ 0x68
  change ¬ _ = 0x65 ∧ ¬ _ = 0x66 at hver
  change ¬ _ = 0x63 ∧ ¬ _ = 0x64 ∧ ¬ _ = 0x67 ∧ ¬ _ = 0x68 at hplain
  omega

lemma after_skipped (hi : i.mark = .plain) (hcs : cs.all id = false) (hs : s.size ≤ maxStackSize) :
    (s.machine cs).after env i = (·.machine cs) <$> s.skip env [i] := by
  rw [after_machine, ← bind_pure_comp]
  refine Except.bind_congr_ok fun s' h => ?_
  have heffect : (s'.machine cs).effect env i = .ok (s'.machine cs) := by
    have hexec : (s'.machine cs).executing = false := hcs
    unfold effect skips
    cases hd : i.data? with
    | some data => simp only [hexec, Bool.false_eq_true, if_false]
    | none =>
      rw [Store.skip_one] at h
      cases hn : i.admit env s.opCount with
      | error e =>
        rw [hn] at h
        cases h
      | ok n =>
        simp only [hexec, isConditional_eq_false hi hd hn, Bool.not_false, Bool.and_self, if_true]
  rw [heffect]
  exact limited_machine (Store.size_of_skip h ▸ hs)

/-! ### Conditionals -/

end Machine

/-- What an instruction does to the conditionals around it. -/
def Mark.builtin? : Mark → Option Builtin
  | .opens negated => some (.branch negated)
  | .alternates => some .otherwise
  | .closes => some .endBranch
  | .plain => none

/-- No network handler stands in for one of the four opcodes that make conditionals. -/
def OpcodeTable.KeepsConditionals (t : OpcodeTable) : Prop :=
  ∀ op ∈ [Opcode.opIf, Opcode.notIf, Opcode.opElse, Opcode.endIf], t.handler? op = none

instance (t : OpcodeTable) : Decidable t.KeepsConditionals :=
  inferInstanceAs (Decidable (∀ op ∈ [_, _, _, _], t.handler? op = none))

namespace Machine

lemma mark_builtin? {b : Builtin} (h : i.mark.builtin? = some b) :
    i.data? = none ∧ i.opcode ∈ [Opcode.opIf, Opcode.notIf, Opcode.opElse, Opcode.endIf] ∧
      i.opcode.isConditional = true ∧ Builtin.ofOpcode? i.opcode = some b := by
  unfold Instruction.mark at h
  cases hd : i.data? with
  | some data => simp [hd, Mark.builtin?] at h
  | none =>
    simp only [hd, Option.isSome_none, Bool.false_eq_true, if_false] at h
    refine ⟨rfl, ?_⟩
    split_ifs at h with ho ho ho ho <;> cases h
    all_goals
      rw [ho]
      decide

/-- **An instruction of a conditional** has its own effect in branches that do not run, too. -/
lemma after_conditional (hkeeps : env.table.KeepsConditionals) {b : Builtin}
    (h : i.mark.builtin? = some b) : (s.machine cs).after env i =
      s.skip env [i] >>= fun s =>
        ((s.machine cs).runBuiltin env (env.table.name i.opcode) i.offset b).quiet >>= limited := by
  obtain ⟨hd, hmem, hcond, hb⟩ := mark_builtin? h
  rw [after_machine]
  refine Except.bind_congr_ok fun s' _ => ?_
  have heffect : (s'.machine cs).effect env i =
      ((s'.machine cs).runBuiltin env (env.table.name i.opcode) i.offset b).quiet := by
    unfold effect skips perform
    simp only [hd, hcond, Bool.not_true, Bool.and_false, Bool.false_eq_true, if_false,
      hkeeps _ hmem, hb]
  rw [heffect]

variable {negated c : Bool}

lemma after_opens (hkeeps : env.table.KeepsConditionals) (hi : i.mark = .opens negated)
    (hcs : cs.all id = true) : (s.machine cs).after env i =
      s.skip env [i] >>= fun s => s.test (env.table.name i.opcode) negated >>= fun p =>
        .ok (p.2.machine (p.1 :: cs)) := by
  rw [after_conditional hkeeps (by rw [hi]; rfl)]
  refine Except.bind_congr_ok fun s' _ => ?_
  have hexec : (s'.machine cs).executing = true := hcs
  change ((s'.machine cs).branch (env.table.name i.opcode) negated).quiet >>= limited = _
  unfold branch Store.test
  rw [if_pos hexec]
  rcases s' with ⟨stack, altstack, opCount, codeStart⟩
  cases stack with
  | nil => rfl
  | cons a below =>
    -- the item that was tested is gone when the size is looked at
    change (if maxStackSize < below.length + altstack.length then _ else _) =
      (if maxStackSize < below.length + altstack.length then _ else _) >>= _
    by_cases hsize : maxStackSize < below.length + altstack.length
    · rw [if_pos hsize, if_pos hsize]
      rfl
    · rw [if_neg hsize, if_neg hsize]
      rfl

lemma after_opens_skipped (hkeeps : env.table.KeepsConditionals) (hi : i.mark = .opens negated)
    (hcs : cs.all id = false) (hs : s.size ≤ maxStackSize) :
    (s.machine cs).after env i = (·.machine (false :: cs)) <$> s.skip env [i] := by
  rw [after_conditional hkeeps (by rw [hi]; rfl), ← bind_pure_comp]
  refine Except.bind_congr_ok fun s' h => ?_
  have hexec : (s'.machine cs).executing = false := hcs
  change ((s'.machine cs).branch (env.table.name i.opcode) negated).quiet >>= limited = _
  unfold branch
  rw [if_neg (by rw [hexec]; decide)]
  exact limited_machine (Store.size_of_skip h ▸ hs)

lemma after_alternates (hkeeps : env.table.KeepsConditionals) (hi : i.mark = .alternates)
    (hs : s.size ≤ maxStackSize) :
    (s.machine (c :: cs)).after env i = (·.machine ((!c) :: cs)) <$> s.skip env [i] := by
  rw [after_conditional hkeeps (by rw [hi]; rfl), ← bind_pure_comp]
  refine Except.bind_congr_ok fun s' h => ?_
  exact limited_machine (Store.size_of_skip h ▸ hs)

lemma after_closes (hkeeps : env.table.KeepsConditionals) (hi : i.mark = .closes)
    (hs : s.size ≤ maxStackSize) :
    (s.machine (c :: cs)).after env i = (·.machine cs) <$> s.skip env [i] := by
  rw [after_conditional hkeeps (by rw [hi]; rfl), ← bind_pure_comp]
  refine Except.bind_congr_ok fun s' h => ?_
  exact limited_machine (Store.size_of_skip h ▸ hs)

/-! ### Trees -/

mutual

lemma afterAll_skipped (hkeeps : env.table.KeepsConditionals) (flow : Flow) (s : Store)
    (cs : List Bool) (hcs : cs.all id = false) (hs : s.size ≤ maxStackSize) :
    (s.machine cs).afterAll env flow.instructions =
      (·.machine cs) <$> s.skip env flow.instructions := by
  cases flow with
  | done => rfl
  | plain i mark next =>
    rw [Flow.instructions, afterAll_cons, after_skipped mark hcs hs, bind_map_left,
      Store.skip_cons _ _ i next.instructions, map_bind]
    refine Except.bind_congr_ok fun s' h => ?_
    exact afterAll_skipped hkeeps next s' cs hcs (Store.size_of_skip h ▸ hs)
  | cond opener negated mark body next =>
    rw [Flow.instructions, afterAll_cons, after_opens_skipped hkeeps mark hcs hs, bind_map_left,
      Store.skip_cons _ _ opener (body.instructions ++ _), map_bind]
    refine Except.bind_congr_ok fun s' h => ?_
    have hs' := Store.size_of_skip h ▸ hs
    rw [afterAll_append, afterAll_segments_skipped hkeeps body s' false cs hcs hs', bind_map_left,
      Store.skip_append, map_bind]
    refine Except.bind_congr_ok fun s'' h' => ?_
    exact afterAll_skipped hkeeps next s'' cs hcs (Store.size_of_skip h' ▸ hs')

lemma afterAll_segments_skipped (hkeeps : env.table.KeepsConditionals) (ss : Segments) (s : Store)
    (c : Bool) (cs : List Bool) (hcs : cs.all id = false) (hs : s.size ≤ maxStackSize) :
    (s.machine (c :: cs)).afterAll env ss.instructions =
      (·.machine cs) <$> s.skip env ss.instructions := by
  -- inside a branch that is skipped every branch is, whatever its own truth value
  have hccs : (c :: cs).all id = false := by rw [List.all_cons, hcs, Bool.and_false]
  cases ss with
  | last flow closer mark =>
    rw [Segments.instructions, afterAll_append, afterAll_skipped hkeeps flow s _ hccs hs,
      bind_map_left, Store.skip_append, map_bind]
    refine Except.bind_congr_ok fun s' h => ?_
    rw [afterAll_cons, after_closes hkeeps mark (Store.size_of_skip h ▸ hs), bind_map_left]
    exact bind_pure_comp _ _
  | more flow turn mark rest =>
    rw [Segments.instructions, afterAll_append, afterAll_skipped hkeeps flow s _ hccs hs,
      bind_map_left, Store.skip_append, map_bind]
    refine Except.bind_congr_ok fun s' h => ?_
    have hs' := Store.size_of_skip h ▸ hs
    rw [afterAll_cons, after_alternates hkeeps mark hs', bind_map_left,
      Store.skip_cons _ _ turn rest.instructions, map_bind]
    refine Except.bind_congr_ok fun s'' h' => ?_
    exact afterAll_segments_skipped hkeeps rest s'' _ cs hcs (Store.size_of_skip h' ▸ hs')

end

/-- Where all conditionals hold, a tree does what its evaluation says. -/
def Evaluates (env : Env) (flow : Flow) : Prop :=
  ∀ (s : Store) (cs : List Bool), cs.all id = true →
    (s.machine cs).afterAll env flow.instructions = (·.machine cs) <$> flow.eval env s

lemma afterAll_segment (hkeeps : env.table.KeepsConditionals) {flow : Flow}
    (heval : Evaluates env flow) {c : Bool} (hcs : cs.all id = true)
    (hs : s.size ≤ maxStackSize) :
    (s.machine (c :: cs)).afterAll env flow.instructions = (·.machine (c :: cs)) <$>
      (if c then flow.eval env s else s.skip env flow.instructions) := by
  cases c with
  | true => exact heval s (true :: cs) (by rw [List.all_cons, hcs]; rfl)
  | false => exact afterAll_skipped hkeeps flow s (false :: cs) rfl hs

lemma size_of_segment (hkeeps : env.table.KeepsConditionals) {flow : Flow}
    (heval : Evaluates env flow) {c : Bool} (hs : s.size ≤ maxStackSize)
    (h : (if c then flow.eval env s else s.skip env flow.instructions) = .ok s') :
    s'.size ≤ maxStackSize := by
  have hall : (s.machine [c]).afterAll env flow.instructions = (Store.machine · [c]) <$>
      (if c then flow.eval env s else s.skip env flow.instructions) :=
    afterAll_segment hkeeps heval rfl hs
  rw [h] at hall
  have hm : (s.machine [c]).size ≤ maxStackSize := hs
  exact size_of_afterAll hm hall

mutual

lemma evaluates (hkeeps : env.table.KeepsConditionals) (flow : Flow) : Evaluates env flow := by
  intro s cs hcs
  cases flow with
  | done => rfl
  | plain i mark next =>
    rw [Flow.instructions, Flow.eval, afterAll_cons, after_plain mark hcs, bind_map_left, map_bind]
    exact Except.bind_congr_ok fun s' _ => evaluates hkeeps next s' cs hcs
  | cond opener negated mark body next =>
    rw [Flow.instructions, Flow.eval, afterAll_cons, after_opens hkeeps mark hcs, bind_assoc,
      map_bind]
    refine Except.bind_congr_ok fun s₁ _ => ?_
    rw [bind_assoc, map_bind]
    refine Except.bind_congr_ok fun p htest => ?_
    obtain ⟨holds, s₂⟩ := p
    change (s₂.machine (holds :: cs)).afterAll env (body.instructions ++ next.instructions) = _
    rw [afterAll_append, afterAll_segments hkeeps body s₂ holds cs hcs (Store.size_of_test htest),
      bind_map_left, map_bind]
    exact Except.bind_congr_ok fun s₃ _ => evaluates hkeeps next s₃ cs hcs

lemma afterAll_segments (hkeeps : env.table.KeepsConditionals) (ss : Segments) (s : Store)
    (c : Bool) (cs : List Bool) (hcs : cs.all id = true) (hs : s.size ≤ maxStackSize) :
    (s.machine (c :: cs)).afterAll env ss.instructions = (·.machine cs) <$> ss.eval env c s := by
  cases ss with
  | last flow closer mark =>
    have heval := evaluates hkeeps flow
    rw [Segments.instructions, Segments.eval, afterAll_append,
      afterAll_segment hkeeps heval hcs hs, bind_map_left, map_bind]
    refine Except.bind_congr_ok fun s' h => ?_
    have hs' := size_of_segment hkeeps heval hs h
    rw [afterAll_cons, after_closes hkeeps mark hs', bind_map_left]
    exact bind_pure_comp _ _
  | more flow turn mark rest =>
    have heval := evaluates hkeeps flow
    rw [Segments.instructions, Segments.eval, afterAll_append,
      afterAll_segment hkeeps heval hcs hs, bind_map_left, map_bind]
    refine Except.bind_congr_ok fun s' h => ?_
    have hs' := size_of_segment hkeeps heval hs h
    rw [afterAll_cons, after_alternates hkeeps mark hs', bind_map_left, map_bind]
    refine Except.bind_congr_ok fun s'' h' => ?_
    -- the next segment runs if this one did not
    exact afterAll_segments hkeeps rest s'' (!c) cs hcs (Store.size_of_skip h' ▸ hs')

end

end Machine

/-! ### Scripts -/

/-- How a run ends: on a store, or with its fault. -/
def Run.ends (r : Run) : Except Fault Store :=
  match r.fault? with
  | some e => .error e
  | none => .ok r.machine.store

lemma Machine.ends_run (env : Env) (is : List Instruction) (m : Machine) :
    (Machine.run env is m).ends = m.afterAll env is >>= fun m =>
      match m.finish? with
      | some e => .error e
      | none => .ok m.store := by
  induction is generalizing m with
  | nil => rfl
  | cons i is ih =>
    rw [afterAll_cons, Machine.run]
    unfold Machine.after
    rcases m.executeChecked env i with ⟨reply, m'⟩
    cases reply with
    | error e => rfl
    | ok log => exact ih m'

/-- **Conditionals are structured.** A script whose conditionals are properly nested is that of a
tree, and it ends from every stack as the evaluation of the tree does: on the same stacks, or
with the same first fault. -/
theorem runScript_structured (hkeeps : env.table.KeepsConditionals)
    (hscript : env.script.instructions = .ok is) (hnested : Nested is) (stack : Stack) :
    (∃ flow : Flow, flow.instructions = is) ∧
      ∀ flow : Flow, flow.instructions = is →
        (runScript env stack).ends = flow.eval env { stack := stack } := by
  refine ⟨nested_iff.1 hnested, ?_⟩
  rintro flow rfl
  have hall : (Store.machine { stack := stack } []).afterAll env flow.instructions =
      (·.machine []) <$> flow.eval env { stack := stack } :=
    Machine.evaluates hkeeps flow _ [] rfl
  rw [runScript_ok hscript, Machine.ends_run]
  change (Store.machine { stack := stack } []).afterAll env _ >>= _ = _
  rw [hall, bind_map_left]
  exact bind_pure _

/-- A script that turns a conditional over three times, with another conditional in a segment
that does not run. -/
def turning : Env where
  table := OpcodeTable.timeLocked
  setting := {}
  phase := .standalone
  script := ⟨[0x51, 0x00, 0x63, 0x6a, 0x64, 0x6a, 0x68, 0x67, 0x52, 0x67, 0x6a, 0x67, 0x53, 0x68]⟩

theorem runScript_turning :
    turning.table.KeepsConditionals ∧
      ∃ is, turning.script.instructions = .ok is ∧ Nested is ∧
        ∃ flow : Flow, flow.instructions = is ∧
          (runScript turning [[7]]).ends = flow.eval turning { stack := [[7]] } ∧
          flow.eval turning { stack := [[7]] } =
            .ok { stack := [[3], [2], [1], [7]], opCount := 10 } := by
  have hkeeps : turning.table.KeepsConditionals := by decide +kernel
  have hscript : ∃ is, turning.script.instructions = .ok is ∧ Nested is := ⟨_, rfl, by decide⟩
  obtain ⟨is, hscript, hnested⟩ := hscript
  obtain ⟨⟨flow, hflow⟩, heval⟩ := runScript_structured hkeeps hscript hnested [[7]]
  refine ⟨hkeeps, is, hscript, hnested, flow, hflow, heval flow hflow, ?_⟩
  rw [← heval flow hflow]
  rfl

end CoinScript
