import CoinScript.Proofs.Machine.Multisig
import CoinScript.Proofs.Positional.Effects
import Mathlib.Data.List.Perm.Basic

/-!
The stack words, against the rearrangements that they stand for.

A rearrangement says how many items come off a stack and which go back, by how deep they lay. Each
word fails for want of items and then leaves both stacks alone, or else it does what its
rearrangement says and touches nothing below. What moves items about without copying them keeps
them, and comes round when it is done often enough.
-/

namespace CoinScript

/-! ### The words -/

/-- The words that move, copy and drop items. -/
inductive StackWord where
  | toAltstack
  | fromAltstack
  | shuffle (op : Shuffle)
  | ifDup
  /-- Brings the item at an index to the top, away from its place if `move` is set. -/
  | pick (move : Bool)
  deriving DecidableEq

/-- A place on one of the two stacks, as deep as it lies. -/
inductive Place where
  | main (depth : Nat)
  | alt (depth : Nat)

/-- How many items come off each stack, and which are put there instead, top first. -/
structure Rearrangement where
  taken : Nat := 0
  put : List Place := []
  altTaken : Nat := 0
  altPut : List Place := []

def Place.item? (s alt : Stack) : Place → Option Bytes
  | .main depth => s[depth]?
  | .alt depth => alt[depth]?

def Rearrangement.stacks? (r : Rearrangement) (s alt : Stack) : Option (Stack × Stack) := do
  let items ← r.put.mapM (Place.item? s alt)
  let others ← r.altPut.mapM (Place.item? s alt)
  return (items ++ s.drop r.taken, others ++ alt.drop r.altTaken)

/-- How many items a rearrangement of the main stack takes, and how deep those lie that it puts
back. -/
def Shuffle.places : Shuffle → Nat × List Nat
  | drop2 => (2, [])
  | dup2 => (2, [0, 1, 0, 1])
  | dup3 => (3, [0, 1, 2, 0, 1, 2])
  | over2 => (4, [2, 3, 0, 1, 2, 3])
  | rot2 => (6, [4, 5, 0, 1, 2, 3])
  | swap2 => (4, [2, 3, 0, 1])
  | drop => (1, [])
  | dup => (1, [0, 0])
  | nip => (2, [0])
  | copySecond => (2, [1, 0, 1])
  | rot => (3, [2, 0, 1])
  | swap => (2, [1, 0])
  | tuck => (2, [0, 1, 0])

namespace StackWord

def opcode : StackWord → Opcode
  | toAltstack => 0x6b
  | fromAltstack => 0x6c
  | shuffle .drop2 => 0x6d
  | shuffle .dup2 => 0x6e
  | shuffle .dup3 => 0x6f
  | shuffle .over2 => 0x70
  | shuffle .rot2 => 0x71
  | shuffle .swap2 => 0x72
  | ifDup => 0x73
  | shuffle .drop => 0x75
  | shuffle .dup => 0x76
  | shuffle .nip => 0x77
  | shuffle .copySecond => 0x78
  | pick false => 0x79
  | pick true => 0x7a
  | shuffle .rot => 0x7b
  | shuffle .swap => 0x7c
  | shuffle .tuck => 0x7d

def builtin : StackWord → Builtin
  | toAltstack => .toAltstack
  | fromAltstack => .fromAltstack
  | shuffle op => .shuffle op
  | ifDup => .ifDup
  | pick move => .pick move

lemma ofOpcode?_opcode (w : StackWord) : Builtin.ofOpcode? w.opcode = some w.builtin := by
  rcases w with - | - | op | - | move
  case shuffle => cases op <;> rfl
  case pick => cases move <;> rfl
  all_goals rfl

def required : StackWord → Nat
  | toAltstack | ifDup => 1
  | fromAltstack => 0
  | shuffle op => op.required
  | pick _ => 2

def index (s : Stack) : Int := Number.decode (s.headD [])

/-- What a word stands for. The last two look at the top item for it. -/
def rearrangement (s : Stack) : StackWord → Rearrangement
  | toAltstack => { taken := 1, altPut := [.main 0] }
  | fromAltstack => { put := [.alt 0], altTaken := 1 }
  | shuffle op => { taken := op.places.1, put := op.places.2.map .main }
  | ifDup => { put := if s.head?.any Number.truthy then [.main 0] else [] }
  | pick false => { taken := 1, put := [.main ((index s).toNat + 1)] }
  | pick true =>
    let n := (index s).toNat
    { taken := n + 2, put := ((n + 1) :: List.range' 1 n).map .main }

/-- Why a word fails: it lacks items, or the index does not lead to one below it. -/
inductive Refuses (name : String) (s alt : Stack) : StackWord → Fault → Prop
  | items {w} (few : s.length < w.required) :
      Refuses name s alt w (.missingOperands name w.required)
  | empty (empty : alt = []) :
      Refuses name s alt fromAltstack (.stackOperation (.emptyAltstack name))
  | index {move} (enough : 2 ≤ s.length)
      (outside : index s < 0 ∨ (s.length : Int) - 1 ≤ index s) :
      Refuses name s alt (pick move) (.stackOperation (.indexOutOfRange name))

end StackWord

/-! ### Rearrangements of a fixed number of items -/

variable {s alt : Stack} {name : String}

lemma mapM_eq_some {α β : Type} {f : α → Option β} {as : List α} {bs : List β} :
    as.mapM f = some bs ↔ as.map f = bs.map some := by
  induction as generalizing bs with
  | nil => cases bs <;> simp
  | cons a as ih =>
    rw [List.mapM_cons]
    cases bs with
    | nil => simp [Option.bind_eq_some_iff]
    | cons b bs =>
      simp only [Option.bind_eq_bind, Option.bind_eq_some_iff, Option.pure_def, Option.some.injEq,
        List.cons.injEq, List.map_cons, ← ih]
      constructor
      · rintro ⟨_, hb, _, hbs, rfl, rfl⟩
        exact ⟨hb, hbs⟩
      · rintro ⟨hb, hbs⟩
        exact ⟨b, hb, bs, hbs, rfl, rfl⟩

lemma mapM_range' {k n : Nat} (h : k + n ≤ s.length) :
    (List.range' k n).mapM (s[·]?) = some ((s.drop k).take n) := by
  induction n generalizing k with
  | zero => simp
  | succ n ih =>
    have hk : k < s.length := by omega
    rw [List.range'_succ, List.mapM_cons, ih (by omega), List.getElem?_eq_getElem hk,
      List.drop_eq_getElem_cons hk, List.take_succ_cons]
    rfl

lemma mapM_main (depths : List Nat) :
    (depths.map Place.main).mapM (Place.item? s alt) = depths.mapM (s[·]?) := by
  rw [List.mapM_map]
  rfl

namespace Shuffle

variable {op : Shuffle}

/-- **A fixed rearrangement is what it stands for.** -/
lemma arrange?_eq_places (h : op.required ≤ s.length) :
    op.arrange? s = (op.places.2.mapM (s[·]?)).map (· ++ s.drop op.places.1) := by
  cases op <;>
    rcases s with - | ⟨a, - | ⟨b, - | ⟨c, - | ⟨d, - | ⟨e, - | ⟨f, s⟩⟩⟩⟩⟩⟩ <;>
      first | rfl | simp [required] at h

end Shuffle

/-! ### What a word does -/

namespace Effect

variable {index : Bytes} {below : Stack} {move : Bool}

lemma pick_eq {n : Nat} (hn : Number.decode index = n) (hlt : n < below.length)
    (hsize : below.length < Nat.pow 2 63) : ∃ log, Effect.pick name move (index :: below) =
      (.ok log, below[n] :: if move then below.eraseIdx n else below) := by
  have hnumber : n < 0x8000000000000000 := Nat.lt_trans hlt hsize
  have hbounded : Number.decodeBounded? index = some (n : Int) := by
    unfold Number.decodeBounded?
    rw [hn]
    exact if_pos (by omega)
  have hget : below[n]? = some below[n] := List.getElem?_eq_getElem hlt
  cases below with
  | nil => cases hlt
  | cons b below =>
    unfold Effect.pick
    simp only [hbounded, Int.toNat_natCast]
    rw [if_neg (by omega), hget]
    exact ⟨_, rfl⟩

lemma pick_of_outside (hbelow : below ≠ [])
    (hindex : Number.decode index < 0 ∨ (below.length : Int) ≤ Number.decode index) :
    Effect.pick name move (index :: below) =
      (.error (.stackOperation (.indexOutOfRange name)), index :: below) := by
  cases below with
  | nil => exact absurd rfl hbelow
  | cons b below =>
    unfold Effect.pick Number.decodeBounded?
    -- An index may have more than 64 bits; within them it is negative or leads past the last item.
    by_cases hrange : -0x8000000000000000 ≤ Number.decode index ∧
        Number.decode index < 0x8000000000000000
    · simp only [if_pos hrange]
      by_cases hneg : Number.decode index < 0
      · rw [if_pos hneg]
        rfl
      · have hnone : (b :: below)[(Number.decode index).toNat]? = none := by
          rw [List.getElem?_eq_none_iff]
          omega
        rw [if_neg hneg, hnone]
        rfl
    · simp only [if_neg hrange]
      rfl

end Effect

namespace StackWord

variable {w : StackWord} {env : Env} {m : Machine} {offset : Nat} {e : Fault}

lemma runBuiltin_of_refuses (h : w.Refuses name m.stack m.altstack e) :
    m.runBuiltin env name offset w.builtin = (.error e, m) := by
  cases h with
  | items few =>
    cases w with
    | toAltstack =>
      have hnil : m.stack = [] := List.length_eq_zero_iff.1 (Nat.lt_one_iff.1 few)
      change m.toAltstack name = _
      rw [Machine.toAltstack, hnil]
      rfl
    | fromAltstack => exact absurd few (Nat.not_lt_zero _)
    | shuffle op =>
      have hnone : op.arrange? m.stack = none := by
        by_contra hsome
        obtain ⟨left, hleft⟩ := Option.ne_none_iff_exists'.1 hsome
        exact absurd (Shuffle.required_le_of_eq_some hleft) (Nat.not_le.2 few)
      exact Machine.onStack_eq (by rw [Shuffle.effect, hnone]; rfl)
    | ifDup =>
      have hnil : m.stack = [] := List.length_eq_zero_iff.1 (Nat.lt_one_iff.1 few)
      exact Machine.onStack_eq (by rw [Effect.ifDup, hnil]; rfl)
    | pick move =>
      refine Machine.onStack_eq ?_
      generalize m.stack = s at few ⊢
      rcases s with - | ⟨a, - | ⟨b, s⟩⟩
      · rfl
      · rfl
      · exact absurd few (Nat.not_lt.2 (Nat.le_add_left 2 s.length))
  | empty empty =>
    change m.fromAltstack name = _
    rw [Machine.fromAltstack, empty]
  | index enough outside =>
    refine Machine.onStack_eq ?_
    generalize m.stack = s at enough outside ⊢
    obtain ⟨index, below, rfl⟩ := List.exists_cons_of_length_pos (Nat.lt_of_succ_lt enough)
    rw [List.length_cons] at enough outside
    refine Effect.pick_of_outside (List.ne_nil_of_length_pos (by omega)) ?_
    rw [Int.natCast_succ, Int.add_sub_cancel] at outside
    exact outside

lemma stacks?_shuffle {op : Shuffle} {left : Stack} (h : op.arrange? s = some left) :
    ((shuffle op).rearrangement s).stacks? s alt = some (left, alt) := by
  rw [Shuffle.arrange?_eq_places (Shuffle.required_le_of_eq_some h), Option.map_eq_some_iff] at h
  obtain ⟨items, hitems, rfl⟩ := h
  rw [rearrangement, Rearrangement.stacks?, mapM_main, hitems]
  rfl

lemma stacks?_pick {index : Bytes} {below : Stack} {move : Bool} {n : Nat}
    (hn : Number.decode index = n) (hlt : n < below.length) :
    ((pick move).rearrangement (index :: below)).stacks? (index :: below) alt =
      some (below[n] :: if move then below.eraseIdx n else below, alt) := by
  have hindex : (StackWord.index (index :: below)).toNat = n := by
    rw [StackWord.index, List.headD_cons, hn, Int.toNat_natCast]
  have hget : (index :: below)[n + 1]? = some below[n] := by
    rw [List.getElem?_cons_succ, List.getElem?_eq_getElem hlt]
  cases move with
  | false =>
    rw [rearrangement, hindex, Rearrangement.stacks?, List.mapM_cons, Place.item?, hget]
    rfl
  | true =>
    have hrest := mapM_range' (s := index :: below) (k := 1) (n := n)
      (by rw [List.length_cons]; omega)
    rw [rearrangement, hindex, Rearrangement.stacks?, mapM_main, List.mapM_cons, hget, hrest]
    simp [List.eraseIdx_eq_take_drop_succ]

lemma index_of_not_refuses {move : Bool} (h : ∀ e, ¬ (pick move).Refuses name s alt e) :
    ∃ n : Nat, index s = n ∧ n + 2 ≤ s.length := by
  have enough : 2 ≤ s.length := Nat.le_of_not_lt fun few => h _ (.items few)
  have inside : ¬ (index s < 0 ∨ (s.length : Int) - 1 ≤ index s) :=
    fun outside => h _ (.index enough outside)
  obtain ⟨n, hn⟩ := Int.eq_ofNat_of_zero_le (a := index s) (by omega)
  exact ⟨n, hn, by omega⟩

lemma runBuiltin_of_not_refuses (hsize : m.stack.length ≤ Nat.pow 2 63)
    (h : ∀ e, ¬ w.Refuses name m.stack m.altstack e) : ∃ log s alt,
    (w.rearrangement m.stack).stacks? m.stack m.altstack = some (s, alt) ∧
      m.runBuiltin env name offset w.builtin =
        (.ok log, { m with stack := s, altstack := alt }) := by
  have enough : w.required ≤ m.stack.length := Nat.le_of_not_lt fun few => h _ (.items few)
  rcases m with ⟨stack, altstack, conditions, opCount, codeStart⟩
  dsimp only at hsize h enough ⊢
  cases w with
  | toAltstack =>
    obtain ⟨a, s, rfl⟩ := List.exists_cons_of_length_pos enough
    exact ⟨_, s, a :: altstack, rfl, rfl⟩
  | fromAltstack =>
    cases altstack with
    | nil => exact absurd (.empty rfl) (h _)
    | cons a alt => exact ⟨_, a :: stack, alt, rfl, rfl⟩
  | shuffle op =>
    cases harrange : op.arrange? stack with
    | none => exact absurd enough (Nat.not_le.2 (Shuffle.lt_required_of_eq_none harrange))
    | some left =>
      exact ⟨_, left, altstack, stacks?_shuffle harrange,
        Machine.onStack_eq (by rw [Shuffle.effect, harrange])⟩
  | ifDup =>
    obtain ⟨a, s, rfl⟩ := List.exists_cons_of_length_pos enough
    cases htrue : Number.truthy a with
    | true =>
      refine ⟨_, a :: a :: s, altstack, ?_,
        Machine.onStack_eq (by rw [Effect.ifDup, Effect.one, htrue]; rfl)⟩
      rw [rearrangement, List.head?_cons, Option.any_some, htrue]
      rfl
    | false =>
      refine ⟨_, a :: s, altstack, ?_,
        Machine.onStack_eq (by rw [Effect.ifDup, Effect.one, htrue]; rfl)⟩
      rw [rearrangement, List.head?_cons, Option.any_some, htrue]
      rfl
  | pick move =>
    obtain ⟨n, hn, hlt⟩ := index_of_not_refuses h
    obtain ⟨index, below, rfl⟩ := List.exists_cons_of_length_pos (Nat.lt_of_succ_lt enough)
    rw [List.length_cons] at hsize hlt
    have hbelow : n < below.length := Nat.lt_of_succ_lt_succ hlt
    obtain ⟨log, hpick⟩ : ∃ log, Effect.pick name move (index :: below) = (.ok log, _) :=
      Effect.pick_eq hn hbelow (Nat.lt_of_succ_le hsize)
    exact ⟨log, _, altstack, stacks?_pick hn hbelow, Machine.onStack_eq hpick⟩

lemma builtin_ne_number (w : StackWord) (n : Int) : w.builtin ≠ .number n := by
  cases w <;> nofun

/-- An instruction of a word that is to be executed, with nothing else in its place. -/
structure Executes (w : StackWord) (env : Env) (m : Machine) (i : Instruction) : Prop where
  opcode : i.opcode = w.opcode
  proper : i.IsProper
  enabled : env.table.isDisabled i.opcode = false
  own : env.table.handler? i.opcode = none
  running : m.executing = true

variable {i : Instruction}

lemma Executes.moved (h : w.Executes env m i) (left : Stack) (n : Nat) :
    w.Executes env { m with stack := left, opCount := n } i :=
  ⟨h.opcode, h.proper, h.enabled, h.own, h.running⟩

lemma Executes.execute_eq (h : w.Executes env m i) (hops : m.opCount < maxOps) :
    m.execute env i = { m with opCount := m.opCount + 1 }.runBuiltin env
      (env.table.name i.opcode) i.offset w.builtin := by
  have hruns : m.RunsAs env i w.builtin :=
    ⟨h.enabled, h.running, h.own, by rw [h.opcode, ofOpcode?_opcode]⟩
  rw [Machine.execute_of_runsAs hruns w.builtin_ne_number h.proper, if_neg (by omega)]

lemma Executes.execute_of_refuses (h : w.Executes env m i) (hops : m.opCount < maxOps)
    (hrefuses : w.Refuses (env.table.name i.opcode) m.stack m.altstack e) :
    m.execute env i = (.error e, { m with opCount := m.opCount + 1 }) := by
  rw [h.execute_eq hops]
  exact runBuiltin_of_refuses hrefuses

lemma Executes.execute_of_not_refuses (h : w.Executes env m i) (hops : m.opCount < maxOps)
    (hsize : m.stack.length ≤ Nat.pow 2 63)
    (hrefuses : ∀ e, ¬ w.Refuses (env.table.name i.opcode) m.stack m.altstack e) :
    ∃ log s alt, (w.rearrangement m.stack).stacks? m.stack m.altstack = some (s, alt) ∧
      m.execute env i =
        (.ok log, { m with stack := s, altstack := alt, opCount := m.opCount + 1 }) := by
  rw [h.execute_eq hops]
  exact runBuiltin_of_not_refuses (m := { m with opCount := m.opCount + 1 }) hsize hrefuses

end StackWord

/-! ### Words that keep all items -/

lemma perm_of_mapM {α β : Type} {f : α → Option β} {as as' : List α} {bs bs' : List β}
    (h : as.Perm as') (hbs : as.mapM f = some bs) (hbs' : as'.mapM f = some bs') :
    bs.Perm bs' := by
  have hmap := h.map f
  rw [mapM_eq_some.1 hbs, mapM_eq_some.1 hbs'] at hmap
  exact (List.map_perm_map_iff (Option.some_injective β)).1 hmap

/-- **A rearrangement that puts back each item it takes** once, but for those on top, keeps the
others. -/
lemma Rearrangement.perm_of_stacks? {depths : List Nat} {k n : Nat} {s' alt' : Stack}
    (hperm : depths.Perm (List.range' k n)) (hlen : k + n ≤ s.length)
    (h : Rearrangement.stacks? { taken := k + n, put := depths.map .main } s alt =
      some (s', alt')) : s'.Perm (s.drop k) := by
  rw [stacks?, mapM_main] at h
  cases hitems : depths.mapM (s[·]?) with
  | none =>
    rw [hitems] at h
    cases h
  | some items =>
    rw [hitems] at h
    cases h
    have hkept := perm_of_mapM hperm hitems (mapM_range' hlen)
    have hrest := hkept.append_right ((s.drop k).drop n)
    rw [List.take_append_drop, List.drop_drop] at hrest
    exact hrest

namespace Shuffle

/-- The rearrangements that move items and copy none, with how often each must be done until
everything is back in its place. -/
def turns : List (Shuffle × Nat) := [(swap, 2), (rot, 3), (swap2, 2), (rot2, 3)]

variable {op : Shuffle} {k : Nat}

lemma places_perm (h : (op, k) ∈ turns) :
    op.places.1 = op.required ∧ op.places.2.Perm (List.range' 0 op.places.1) := by
  have hall : ∀ p ∈ turns, p.1.places.1 = p.1.required ∧
      p.1.places.2.Perm (List.range' 0 p.1.places.1) := by decide
  exact hall _ h

lemma iterate_arrange? (h : (op, k) ∈ turns) (hlen : op.required ≤ s.length) :
    (fun s? => s?.bind op.arrange?)^[k] (some s) = some s := by
  simp only [turns, List.mem_cons, Prod.mk.injEq, List.not_mem_nil, or_false] at h
  rcases h with ⟨rfl, rfl⟩ | ⟨rfl, rfl⟩ | ⟨rfl, rfl⟩ | ⟨rfl, rfl⟩ <;>
    rcases s with - | ⟨a, - | ⟨b, - | ⟨c, - | ⟨d, - | ⟨e, - | ⟨f, s⟩⟩⟩⟩⟩⟩ <;>
      first | rfl | simp [required] at hlen

end Shuffle

namespace StackWord

variable {env : Env} {m : Machine} {i : Instruction} {op : Shuffle} {k : Nat}

lemma perm_of_turns {s' alt' : Stack} (h : (op, k) ∈ Shuffle.turns) (hlen : op.required ≤ s.length)
    (hstacks : ((shuffle op).rearrangement s).stacks? s alt = some (s', alt')) : s'.Perm s := by
  obtain ⟨hplaces, hperm⟩ := Shuffle.places_perm h
  rw [rearrangement, ← Nat.zero_add op.places.1] at hstacks
  exact Rearrangement.perm_of_stacks? hperm (by omega) hstacks

lemma perm_of_roll {s' alt' : Stack} (h : ∀ e, ¬ (pick true).Refuses name s alt e)
    (hstacks : ((pick true).rearrangement s).stacks? s alt = some (s', alt')) : s'.Perm s.tail := by
  obtain ⟨n, hn, hlen⟩ := index_of_not_refuses h
  have hperm : ((n + 1) :: List.range' 1 n).Perm (List.range' 1 (n + 1)) := by
    rw [List.range'_concat, Nat.one_mul, Nat.add_comm 1]
    exact (List.perm_append_singleton _ _).symm
  have htaken : n + 2 = 1 + (n + 1) := by omega
  simp only [rearrangement, hn, Int.toNat_natCast, htaken] at hstacks
  rw [← List.drop_one]
  exact Rearrangement.perm_of_stacks? hperm (by omega) hstacks

lemma after_shuffle {left : Stack} (h : (shuffle op).Executes env m i) (hops : m.opCount < maxOps)
    (hsize : left.length + m.altstack.length ≤ maxStackSize)
    (harrange : op.arrange? m.stack = some left) :
    m.after env i = .ok { m with stack := left, opCount := m.opCount + 1 } := by
  refine Machine.after_eq_ok.2
    ⟨s!"{env.table.name i.opcode}: {op.log}", Machine.executeChecked_eq_ok.2 ⟨?_, hsize⟩⟩
  rw [h.execute_eq hops]
  exact Machine.onStack_eq (by rw [Shuffle.effect, harrange])

lemma afterAll_shuffle {is : List Instruction} {left : Stack} (hturns : (op, k) ∈ Shuffle.turns)
    (his : ∀ i ∈ is, (shuffle op).Executes env m i) (hops : m.opCount + is.length ≤ maxOps)
    (henough : op.required ≤ m.stack.length) (hsize : m.size ≤ maxStackSize)
    (hleft : (fun s? => s?.bind op.arrange?)^[is.length] (some m.stack) = some left) :
    m.afterAll env is = .ok { m with stack := left, opCount := m.opCount + is.length } := by
  induction is generalizing m with
  | nil =>
    cases hleft
    rfl
  | cons i is ih =>
    rw [List.length_cons] at hops hleft ⊢
    rw [Function.iterate_succ_apply, Option.bind_some] at hleft
    cases harrange : op.arrange? m.stack with
    | none => exact absurd henough (Nat.not_le.2 (Shuffle.lt_required_of_eq_none harrange))
    | some mid =>
      -- No item is lost, so the next instruction finds enough and the stacks stay as large.
      have hlength : mid.length = m.stack.length :=
        (perm_of_turns hturns henough
          (stacks?_shuffle harrange : _ = some (mid, m.altstack))).length_eq
      have hmid : mid.length + m.altstack.length ≤ maxStackSize := hlength ▸ hsize
      rw [Machine.afterAll_cons,
        after_shuffle (his i List.mem_cons_self) (by omega) hmid harrange, Except.ok_bind]
      rw [harrange] at hleft
      have hrest := ih (m := { m with stack := mid, opCount := m.opCount + 1 })
        (fun j hj => (his j (List.mem_cons_of_mem i hj)).moved mid (m.opCount + 1))
        (by dsimp only; omega) (hlength ▸ henough) hmid hleft
      rw [hrest, Nat.add_right_comm, Nat.add_assoc]

lemma execute_pick {index : Bytes} {below : Stack} {move : Bool} {n : Nat}
    (h : (pick move).Executes env m i) (hops : m.opCount < maxOps)
    (hstack : m.stack = index :: below) (hn : Number.decode index = n) (hlt : n < below.length)
    (hsize : below.length < Nat.pow 2 63) : ∃ log, m.execute env i = (.ok log,
      { m with
        stack := below[n] :: if move then below.eraseIdx n else below
        opCount := m.opCount + 1 }) := by
  obtain ⟨log, hpick⟩ : ∃ log, Effect.pick (env.table.name i.opcode) move m.stack = (.ok log, _) :=
    hstack ▸ Effect.pick_eq hn hlt hsize
  rw [h.execute_eq hops]
  exact ⟨log, Machine.onStack_eq hpick⟩

end StackWord

open StackWord in
/-- **The stack words** do what they stand for. A word that is executed fails if it lacks items or
its index leads to none, and then leaves both stacks alone; else it rearranges them. What only
moves items keeps them all and comes round, and an item is moved up from where it would be
copied. The bound on the stack is that of an index, which has 64 bits. -/
theorem Machine.execute_rearranges (env : Env) (m : Machine) (hops : m.opCount < maxOps)
    (hsize : m.stack.length ≤ Nat.pow 2 63) :
    (∀ (w : StackWord) (i : Instruction), w.Executes env m i →
      (∀ e, w.Refuses (env.table.name i.opcode) m.stack m.altstack e →
        m.execute env i = (.error e, { m with opCount := m.opCount + 1 })) ∧
      ((∀ e, ¬ w.Refuses (env.table.name i.opcode) m.stack m.altstack e) → ∃ log s alt,
        (w.rearrangement m.stack).stacks? m.stack m.altstack = some (s, alt) ∧
        m.execute env i =
          (.ok log, { m with stack := s, altstack := alt, opCount := m.opCount + 1 }) ∧
        (∀ op k, (op, k) ∈ Shuffle.turns → w = shuffle op → s.Perm m.stack) ∧
        (w = pick true → s.Perm m.stack.tail))) ∧
    (∀ op k, (op, k) ∈ Shuffle.turns → op.required ≤ m.stack.length → m.size ≤ maxStackSize →
      m.opCount + k ≤ maxOps → ∀ is : List Instruction, is.length = k →
      (∀ i ∈ is, (shuffle op).Executes env m i) →
        m.afterAll env is = .ok { m with opCount := m.opCount + k }) ∧
    (∀ i j : Instruction, (pick false).Executes env m i → (pick true).Executes env m j →
      0 ≤ index m.stack → index m.stack < (m.stack.length : Int) - 1 → ∃ log log' item rest,
        m.execute env i =
          (.ok log, { m with stack := item :: m.stack.tail, opCount := m.opCount + 1 }) ∧
        m.execute env j =
          (.ok log', { m with stack := item :: rest, opCount := m.opCount + 1 })) := by
  refine ⟨fun w i h => ⟨fun e => h.execute_of_refuses hops, fun hrefuses => ?_⟩, ?_, ?_⟩
  · obtain ⟨log, s, alt, hstacks, hexecute⟩ := h.execute_of_not_refuses hops hsize hrefuses
    refine ⟨log, s, alt, hstacks, hexecute, ?_, ?_⟩
    · rintro op k hturns rfl
      have henough : op.required ≤ m.stack.length :=
        Nat.le_of_not_lt fun few => hrefuses _ (.items few)
      exact perm_of_turns hturns henough hstacks
    · rintro rfl
      exact perm_of_roll hrefuses hstacks
  · rintro op k hturns henough hfits hcount is rfl his
    exact afterAll_shuffle hturns his hcount henough hfits
      (Shuffle.iterate_arrange? hturns henough)
  · intro i j hcopy hmove hnonneg hlt
    obtain ⟨n, hn⟩ := Int.eq_ofNat_of_zero_le hnonneg
    obtain ⟨index, below, hstack⟩ :=
      List.exists_cons_of_length_pos (l := m.stack) (by omega)
    rw [hstack] at hn
    rw [hstack, List.length_cons] at hlt hsize
    have hbelow : n < below.length := by omega
    obtain ⟨log, hcopied⟩ := execute_pick hcopy hops hstack hn hbelow (by omega)
    obtain ⟨log', hmoved⟩ := execute_pick hmove hops hstack hn hbelow (by omega)
    exact ⟨log, log', _, _, hstack ▸ hcopied, hmoved⟩

def stacking : Env where
  table := OpcodeTable.timeLocked
  setting := {}
  phase := .standalone
  script := ⟨[]⟩

def indexed : Machine where
  stack := [[1, 0], [7], [8], [9]]
  altstack := [[5]]

lemma stacking_opcode (w : StackWord) : Opcode.push4 < w.opcode ∧
    stacking.table.isDisabled w.opcode = false ∧ stacking.table.handler? w.opcode = none := by
  rcases w with - | - | op | - | move
  case shuffle => cases op <;> decide +kernel
  case pick => cases move <;> decide +kernel
  all_goals decide +kernel

lemma executes_indexed (w : StackWord) : w.Executes stacking indexed ⟨w.opcode, none, 0⟩ :=
  ⟨rfl, (stacking_opcode w).1, (stacking_opcode w).2.1, (stacking_opcode w).2.2, rfl⟩

open StackWord in
theorem Machine.execute_rearranges_indexed :
    (∃ log, indexed.execute stacking ⟨0x7a, none, 0⟩ =
      (.ok log, { indexed with stack := [[8], [7], [9]], opCount := 1 })) ∧
    (∃ log, indexed.execute stacking ⟨0x79, none, 0⟩ =
      (.ok log, { indexed with stack := [[8], [7], [8], [9]], opCount := 1 })) ∧
    indexed.execute stacking ⟨0x71, none, 0⟩ =
      (.error (.missingOperands "OP_2ROT" 6), { indexed with opCount := 1 }) ∧
    indexed.afterAll stacking (List.replicate 3 ⟨0x7b, none, 0⟩) =
      .ok { indexed with opCount := 3 } := by
  obtain ⟨hwords, hturns, hindex⟩ :=
    Machine.execute_rearranges stacking indexed (by decide) (by decide)
  have hroll : ∃ log, indexed.execute stacking ⟨0x7a, none, 0⟩ =
      (.ok log, { indexed with stack := [[8], [7], [9]], opCount := 1 }) := by
    obtain ⟨log, s, alt, hstacks, hexecute, -⟩ :=
      (hwords (pick true) _ (executes_indexed _)).2 (by
        rintro e (few | - | ⟨-, outside⟩)
        · exact absurd few (by decide)
        · exact absurd outside (by decide))
    cases hstacks
    exact ⟨log, hexecute⟩
  refine ⟨hroll, ?_, ?_, ?_⟩
  · obtain ⟨log, log', item, rest, hcopied, hmoved⟩ :=
      hindex _ _ (executes_indexed _) (executes_indexed _) (by decide) (by decide)
    obtain ⟨rolled, hrolled⟩ := hroll
    cases hmoved.symm.trans hrolled
    exact ⟨log, hcopied⟩
  · exact (hwords (shuffle .rot2) _ (executes_indexed _)).1 _ (.items (by decide))
  · exact hturns .rot 3 (by decide) (by decide) (by decide) (by decide) _ rfl
      fun i hi => List.eq_of_mem_replicate hi ▸ executes_indexed (shuffle .rot)

end CoinScript
