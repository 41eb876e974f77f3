import CoinScript.Proofs.Opcode.Mnemonics

/-!
Renames, one after another.

After any number of renames an opcode has the mnemonic that it was given last, and a mnemonic
names the opcode that it was last given to. What no rename touches is as it was before. The order
of renames matters only where one of them gives away what another gave.
-/

namespace CoinScript

namespace Mnemonic

/-- Whether a token starts with a digit once `OP_` is left out. -/
def isBare (token : String) : Bool :=
  !isLed (upperCase token) && (upperCase token).toList.head?.any Char.isDigit

end Mnemonic

namespace OpcodeTable

open Mnemonic

variable {t : OpcodeTable} {op : Opcode} {full token : String} {rs rs' : List (Opcode × String)}

lemma value?_eq_some : t.value? token = some op ↔
    t.resolve? (Mnemonic.normalize token) = some op ∧
      ¬ (isBare token = true ∧ op.isNumericPush = true) := by
  have hvalue : t.value? token = (t.resolve? (Mnemonic.normalize token)).filter
      fun op => !(isBare token && op.isNumericPush) := by
    unfold value? isBare
    cases t.resolve? (Mnemonic.normalize token) with
    | none => rfl
    | some op' =>
      rw [Option.filter_some]
      dsimp only
      split <;> simp_all
  rw [hvalue, Option.filter_eq_some_iff, Bool.not_eq_true', ← Bool.not_eq_true, Bool.and_eq_true]

lemma name_congr {u : OpcodeTable} (hnames : t.names = u.names) : t.name = u.name := by
  funext op
  unfold name name?
  rw [hnames]

lemma value?_congr {u : OpcodeTable} (hnames : t.names = u.names) (hvalues : t.values = u.values) :
    t.value? = u.value? := by
  funext token
  unfold value? resolve? name?
  rw [hnames, hvalues]

section

variable (t) (op : Opcode) (ops : List Opcode) (h : Handler)

@[simp] lemma name_setDisabled : (t.setDisabled ops).name = t.name := name_congr rfl

@[simp] lemma value?_setDisabled : (t.setDisabled ops).value? = t.value? := value?_congr rfl rfl

@[simp] lemma name_register : (t.register op h).name = t.name := name_congr rfl

@[simp] lemma value?_register : (t.register op h).value? = t.value? := value?_congr rfl rfl

end

/-- Tables that no opcode and no token tells apart. -/
structure Alike (t u : OpcodeTable) : Prop where
  name : t.name = u.name
  value : t.value? = u.value?
  disabled : t.disabled = u.disabled
  overrides : t.overrides = u.overrides

lemma Alike.setDisabled {u : OpcodeTable} (h : t.Alike u) (ops : List Opcode) :
    (t.setDisabled ops).Alike (u.setDisabled ops) where
  name := by simpa using h.name
  value := by simpa using h.value
  disabled := rfl
  overrides := h.overrides

lemma Alike.register {u : OpcodeTable} (h : t.Alike u) (op : Opcode) (handler : Handler) :
    (t.register op handler).Alike (u.register op handler) where
  name := by simpa using h.name
  value := by simpa using h.value
  disabled := h.disabled
  overrides := congrArg ((op, handler) :: ·) h.overrides

/-! ### Association lists from behind -/

section

variable {α β : Type} [DecidableEq α] {a : α} {b : β} {entries entries' : List (α × β)}

lemma lookup_reverse_eq_some (hnodup : (entries.map Prod.fst).Nodup) :
    entries.reverse.lookup a = some b ↔ (a, b) ∈ entries := by
  constructor
  · intro h
    exact List.mem_reverse.1 (mem_of_lookup h)
  · intro h
    refine lookup_of_mem ?_ (List.mem_reverse.2 h)
    rw [List.map_reverse]
    exact List.nodup_reverse.2 hnodup

lemma lookup_reverse_perm (h : entries.Perm entries') (hnodup : (entries.map Prod.fst).Nodup) :
    entries.reverse.lookup a = entries'.reverse.lookup a := by
  have hnodup' := (h.map Prod.fst).nodup_iff.1 hnodup
  refine Option.ext fun b => ?_
  rw [lookup_reverse_eq_some hnodup, lookup_reverse_eq_some hnodup', h.mem_iff]

lemma lookup_reverse_eq_none :
    entries.reverse.lookup a = none ↔ ∀ p ∈ entries, p.1 ≠ a := by
  simp only [List.lookup_eq_none_iff, List.mem_reverse, bne_iff_ne]
  exact forall₂_congr fun p _ => ne_comm

end

/-! ### The table after some renames -/

/-- Opcodes given new mnemonics, from first to last. -/
def renameAll (t : OpcodeTable) (rs : List (Opcode × String)) : OpcodeTable :=
  rs.foldl (fun t r => t.rename r.1 r.2) t

/-- The mnemonic that renames give an opcode, the last of them first. -/
def called? (rs : List (Opcode × String)) (op : Opcode) : Option String :=
  (rs.map fun r => (r.1, Mnemonic.normalize r.2)).reverse.lookup op

/-- The opcode that renames give a mnemonic, the last of them first. -/
def given? (rs : List (Opcode × String)) (full : String) : Option Opcode :=
  (rs.map fun r => (Mnemonic.normalize r.2, r.1)).reverse.lookup full

lemma renameAll_append : t.renameAll (rs ++ rs') = (t.renameAll rs).renameAll rs' :=
  List.foldl_append

lemma names_renameAll : (t.renameAll rs).names =
    (rs.map fun r => (r.1, Mnemonic.normalize r.2)).reverse ++ t.names := by
  induction rs generalizing t with
  | nil => rfl
  | cons r rs ih =>
    rw [renameAll, List.foldl_cons]
    refine (ih (t := t.rename r.1 r.2)).trans ?_
    simp [rename]

lemma values_renameAll : (t.renameAll rs).values =
    (rs.map fun r => (Mnemonic.normalize r.2, r.1)).reverse ++ t.values := by
  induction rs generalizing t with
  | nil => rfl
  | cons r rs ih =>
    rw [renameAll, List.foldl_cons]
    refine (ih (t := t.rename r.1 r.2)).trans ?_
    simp [rename]

@[simp] lemma disabled_renameAll : (t.renameAll rs).disabled = t.disabled := by
  induction rs generalizing t with
  | nil => rfl
  | cons r rs ih => exact ih (t := t.rename r.1 r.2)

@[simp] lemma overrides_renameAll : (t.renameAll rs).overrides = t.overrides := by
  induction rs generalizing t with
  | nil => rfl
  | cons r rs ih => exact ih (t := t.rename r.1 r.2)

lemma name?_renameAll : (t.renameAll rs).name? op = (called? rs op).or (t.name? op) := by
  rw [name?, names_renameAll, List.lookup_append]
  rfl

lemma lookup_renameAll :
    (t.renameAll rs).values.lookup full = (given? rs full).or (t.values.lookup full) := by
  rw [values_renameAll, List.lookup_append]
  rfl

lemma called?_append : called? (rs ++ rs') op = (called? rs' op).or (called? rs op) := by
  simp [called?, List.lookup_append]

lemma called?_eq_none : called? rs op = none ↔ ∀ r ∈ rs, r.1 ≠ op := by
  rw [called?, lookup_reverse_eq_none, List.forall_mem_map]

lemma given?_eq_none : given? rs full = none ↔ ∀ r ∈ rs, Mnemonic.normalize r.2 ≠ full := by
  rw [given?, lookup_reverse_eq_none, List.forall_mem_map]

lemma exists_of_called? {name : String} (h : called? rs op = some name) :
    ∃ r ∈ rs, r.1 = op ∧ Mnemonic.normalize r.2 = name := by
  obtain ⟨r, hr, he⟩ := List.mem_map.1 (List.mem_reverse.1 (mem_of_lookup h))
  cases he
  exact ⟨r, hr, rfl, rfl⟩

/-! ### Renames of different opcodes, and to different mnemonics -/

section

variable {r : Opcode × String}

lemma called?_of_mem (hops : (rs.map Prod.fst).Nodup) (hr : r ∈ rs) :
    called? rs r.1 = some (Mnemonic.normalize r.2) := by
  refine (lookup_reverse_eq_some ?_).2 (List.mem_map.2 ⟨r, hr, rfl⟩)
  rwa [List.map_map]

lemma given?_of_mem (hnames : (rs.map (Mnemonic.normalize ·.2)).Nodup) (hr : r ∈ rs) :
    given? rs (Mnemonic.normalize r.2) = some r.1 := by
  refine (lookup_reverse_eq_some ?_).2 (List.mem_map.2 ⟨r, hr, rfl⟩)
  simpa only [List.map_map, Function.comp_def] using hnames

lemma called?_perm (h : rs.Perm rs') (hops : (rs.map Prod.fst).Nodup) :
    called? rs op = called? rs' op := by
  refine lookup_reverse_perm (h.map _) ?_
  rwa [List.map_map]

lemma given?_perm (h : rs.Perm rs') (hnames : (rs.map (Mnemonic.normalize ·.2)).Nodup) :
    given? rs full = given? rs' full := by
  refine lookup_reverse_perm (h.map _) ?_
  simpa only [List.map_map, Function.comp_def] using hnames

end

/-! ### What mnemonics name -/

lemma resolve?_of_given (h : given? rs full = some op) :
    (t.renameAll rs).resolve? full = some op := by
  refine resolve?_of_lookup ?_
  rw [lookup_renameAll, h, Option.some_or]

lemma resolve?_of_fresh (h : given? rs full = none) (hop : called? rs op = none)
    (ht : t.resolve? full = some op) : (t.renameAll rs).resolve? full = some op := by
  unfold resolve? at ht ⊢
  rw [lookup_renameAll, h, Option.none_or]
  cases hlookup : t.values.lookup full with
  | some op' => simpa [hlookup] using ht
  | none =>
    rw [hlookup] at ht
    cases hunknown : unknown? full with
    | none => simp [hunknown] at ht
    | some op' =>
      simp only [hunknown] at ht ⊢
      split at ht
      · cases ht
      · rename_i hname
        cases ht
        rw [name?_renameAll, hop, Option.none_or, if_neg hname]

lemma resolve?_congr (hgiven : given? rs full = given? rs' full)
    (hcalled : ∀ op, called? rs op = called? rs' op) :
    (t.renameAll rs).resolve? full = (t.renameAll rs').resolve? full := by
  unfold resolve?
  simp only [lookup_renameAll, name?_renameAll, hgiven, hcalled]

/-- **Renames of different opcodes to different mnemonics** may come in any order. -/
theorem renameAll_perm (h : rs.Perm rs') (hops : (rs.map Prod.fst).Nodup)
    (hnames : (rs.map (Mnemonic.normalize ·.2)).Nodup) :
    (t.renameAll rs).Alike (t.renameAll rs') where
  name := by
    funext op
    rw [name_eq, name_eq, name?_renameAll, name?_renameAll, called?_perm h hops]
  value := by
    funext token
    refine Option.ext fun op => ?_
    rw [value?_eq_some, value?_eq_some,
      resolve?_congr (given?_perm h hnames) fun _ => called?_perm h hops]
  disabled := by rw [disabled_renameAll, disabled_renameAll]
  overrides := by rw [overrides_renameAll, overrides_renameAll]

end OpcodeTable

end CoinScript
