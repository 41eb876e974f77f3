import CoinScript.Proofs.Wire.Reader

/-!
Compact sizes are canonical.

A number can be spelled by itself, if it is small, and behind each marker whose bytes have room for
it. One of these forms is the shortest, which is the one that is written. It is read wherever it
stands, whatever follows it; each other form is refused, and the reader stays before it.
-/

namespace CoinScript

namespace CompactSize

variable {b : Bytes} {m : UInt8} {n : Nat}

def size (n : Nat) : Nat :=
  if n < 0xfd then 1
  else if n < 0x10000 then 3
  else if n < 0x100000000 then 5
  else 9

/-- The forms of a number: by itself below the markers, or behind one of them. -/
inductive Spells : Bytes → Nat → Prop
  | short {n : Nat} (h : n < 0xfd) : Spells [UInt8.ofNat n] n
  | marked {m : UInt8} {n : Nat} (hm : 0xfd ≤ m.toNat) (h : n < Nat.pow 256 (form m).1) :
      Spells (m :: Bytes.ofNatLE (form m).1 n) n

lemma length_encode (n : Nat) : (encode n).length = size n := by
  unfold encode size
  split_ifs <;> simp

lemma size_lt (hm : 0xfd ≤ m.toNat) (h : n < (form m).2) : size n < (form m).1 + 1 := by
  have hlt := m.toNat_lt
  have hcases : m.toNat = 0xfd ∨ m.toNat = 0xfe ∨ m.toNat = 0xff := by omega
  have hmarker (k : UInt8) (hk : m.toNat = k.toNat) : m = k := UInt8.toNat_inj.1 hk
  unfold size
  rcases hcases with h2 | h4 | h8
  · obtain rfl := hmarker 0xfd h2
    change n < 0xfd at h
    rw [if_pos h]
    decide
  · obtain rfl := hmarker 0xfe h4
    change n < 0x10000 at h
    rw [if_pos h]
    split <;> decide
  · obtain rfl := hmarker 0xff h8
    change n < 0x100000000 at h
    rw [if_pos h]
    split
    · decide
    · split <;> decide

lemma encode_of_marker (hm : 0xfd ≤ m.toNat) (hl : (form m).2 ≤ n)
    (hu : n < Nat.pow 256 (form m).1) : encode n = m :: Bytes.ofNatLE (form m).1 n := by
  have hmarker : UInt8.ofNat m.toNat = m := UInt8.ofNat_toNat
  have hencode := encode_marked (n := n) hm m.toNat_lt
  rw [hmarker] at hencode
  exact hencode hl hu

lemma Spells.lt (h : Spells b n) : n < Nat.pow 256 8 := by
  cases h with
  | short h => exact Nat.lt_trans h (by decide)
  | marked _ h => exact lt_of_lt_form h

lemma Spells.eq_or_marked (h : Spells b n) : b = encode n ∨
    ∃ m : UInt8, b = m :: Bytes.ofNatLE (form m).1 n ∧ 0xfd ≤ m.toNat ∧
      n < Nat.pow 256 (form m).1 ∧ n < (form m).2 ∧ (encode n).length < b.length := by
  cases h with
  | short h => exact .inl (encode_short h).symm
  | @marked m _ hm h =>
    rcases Nat.lt_or_ge n (form m).2 with hlt | hle
    · refine .inr ⟨m, rfl, hm, h, hlt, ?_⟩
      rw [length_encode, List.length_cons, Bytes.length_ofNatLE]
      exact size_lt hm hlt
    · exact .inl (encode_of_marker hm hle h).symm

lemma spells_encode (h : n < Nat.pow 256 8) : Spells (encode n) n := by
  by_cases hfd : n < 0xfd
  · rw [encode_short hfd]
    exact .short hfd
  · obtain ⟨m, hm, hm', hl, hu⟩ := exists_marker (by omega) h
    have hmarker : (UInt8.ofNat m).toNat = m := by
      rw [UInt8.toNat_ofNat']
      omega
    rw [encode_marked hm hm' hl hu]
    exact .marked (by rwa [hmarker]) hu

end CompactSize

namespace Read

variable {c c' : Cursor} {m : UInt8} {n : Nat}

lemma least_eq_error {w least : Nat} (hu : uint w c = .ok (n, c')) (hlt : n < least) :
    (do let n ← uint w
        if n < least then throw (.encoding (.notShortest n (← get).offset))
        return n : Read Nat) c = .error (.encoding (.notShortest n c'.offset)) := by
  refine bind_eq_error.2 (.inr ⟨n, c', hu, ?_⟩)
  rw [if_pos hlt]
  rfl

lemma compactSize_marked (hm : 0xfd ≤ m.toNat) (h : n < Nat.pow 256 (CompactSize.form m).1)
    (hlt : n < (CompactSize.form m).2)
    (hs : c.Spans (m :: Bytes.ofNatLE (CompactSize.form m).1 n) c') :
    compactSize c = .error (.encoding (.notShortest n c'.offset)) := by
  obtain ⟨d, hmarker, hnumber⟩ := Cursor.spans_cons.1 hs
  have hm' : UInt8.ofNat m.toNat = m := UInt8.ofNat_toNat
  have hfirst : uint 1 c = .ok (m.toNat, d) := by
    refine uint_eq_ok.2 ⟨m.toNat_lt, ?_⟩
    rwa [Bytes.ofNatLE, Bytes.ofNatLE, hm']
  have hsecond : uint (CompactSize.form m).1 d = .ok (n, c') := uint_eq_ok.2 ⟨h, hnumber⟩
  refine bind_eq_error.2 (.inr ⟨m.toNat, d, hfirst, ?_⟩)
  rw [if_neg (by omega), hm']
  exact least_eq_error hsecond hlt

end Read

namespace Reader

/-- A reader between what it has read and what is left. -/
def between (before rest : Bytes) : Reader := ⟨before ++ rest, before.length⟩

lemma position_between (before rest : Bytes) : (between before rest).position = before.length := rfl

lemma cursor_between (before rest : Bytes) :
    (between before rest).cursor = ⟨before.length, rest⟩ := by
  simp [between, cursor]

lemma within_between (before rest : Bytes) : (between before rest).Within := by
  simp [between, Within]

lemma moveTo_between (before b rest : Bytes) :
    (between before (b ++ rest)).moveTo (before.length + b.length) =
      between (before ++ b) rest := by
  simp [between, moveTo]

lemma spans_between (before b rest : Bytes) :
    (between before (b ++ rest)).cursor.Spans b (between (before ++ b) rest).cursor := by
  rw [cursor_between, cursor_between]
  exact ⟨rfl, List.length_append⟩

lemma exists_between {before rest b : Bytes} {p : Nat} (h : (between before rest).cursor.Spans b
    ((between before rest).moveTo p).cursor) : ∃ t, rest = b ++ t ∧
      (between before rest).moveTo p = between (before ++ b) t := by
  have hp : p = before.length + b.length := (spans_cursor h).1
  obtain ⟨hrest, -⟩ := h
  rw [cursor_between] at hrest
  change rest = _ at hrest
  generalize ((between before rest).moveTo p).cursor.rest = t at hrest
  subst hp hrest
  exact ⟨t, rfl, moveTo_between before b t⟩

/-- **A computation that restores** ends well where the read that it follows does. -/
lemma Restores.on_eq_ok {α : Type} {m : Reading α} {f : Read α} (hm : Restores m f) {r r' : Reader}
    (hr : r.Within) {v : α} : m.on r = (.ok v, r') ↔
      ∃ p, f r.cursor = .ok (v, (r.moveTo p).cursor) ∧ r' = r.moveTo p := by
  constructor
  · intro hon
    cases hread : f r.cursor with
    | error e => cases (hm.back hr hread).symm.trans hon
    | ok vc =>
      obtain ⟨v', c⟩ := vc
      obtain ⟨p, -, rfl, hon'⟩ := hm.ok hr hread
      cases hon'.symm.trans hon
      exact ⟨p, rfl, rfl⟩
  · rintro ⟨p, hread, rfl⟩
    obtain ⟨p', -, hcursor, hon⟩ := hm.ok hr hread
    obtain rfl : p = p' := congrArg Cursor.offset hcursor
    exact hon

lemma compactSize_on_eq_ok {before rest : Bytes} {v : Nat} {r : Reader} :
    compactSize.on (between before rest) = (.ok v, r) ↔ v < Nat.pow 256 8 ∧
      ∃ t, rest = CompactSize.encode v ++ t ∧ r = between (before ++ CompactSize.encode v) t := by
  rw [restores_compactSize.on_eq_ok (within_between before rest)]
  constructor
  · rintro ⟨p, hread, rfl⟩
    obtain ⟨hv, hs⟩ := Read.compactSize_eq_ok.1 hread
    exact ⟨hv, exists_between hs⟩
  · rintro ⟨hv, t, rfl, rfl⟩
    refine ⟨before.length + (CompactSize.encode v).length, ?_, (moveTo_between _ _ _).symm⟩
    rw [moveTo_between]
    exact Read.compactSize_eq_ok.2 ⟨hv, spans_between _ _ _⟩

lemma compactSize_on_spelled {b : Bytes} {v : Nat} (h : CompactSize.Spells b v)
    (hne : b ≠ CompactSize.encode v) (before t : Bytes) :
    compactSize.on (between before (b ++ t)) =
      (.error (.encoding (.notShortest v (before.length + b.length))),
        between before (b ++ t)) := by
  obtain heq | ⟨m, rfl, hm, hu, hlt, -⟩ := h.eq_or_marked
  · exact absurd heq hne
  · have hread := Read.compactSize_marked hm hu hlt (spans_between before _ t)
    rw [offset_cursor, position_between, List.length_append] at hread
    exact restores_compactSize.back (within_between before _) hread

/-- **Compact sizes are canonical.** A number of sixty-four bits is read exactly where its shortest
form stands, whatever there is before and behind it, and the reader passes over that form and no
more. So no number has two forms that are accepted: all others are longer, and are refused with the
reader staying where it was. -/
theorem compactSize_canonical :
    (∀ v < Nat.pow 2 64, ∀ before t, compactSize.on (between before (CompactSize.encode v ++ t)) =
      (.ok v, between (before ++ CompactSize.encode v) t)) ∧
    (∀ before rest v r, compactSize.on (between before rest) = (.ok v, r) → v < Nat.pow 2 64 ∧
      ∃ t, rest = CompactSize.encode v ++ t ∧ r = between (before ++ CompactSize.encode v) t) ∧
    (∀ v < Nat.pow 2 64, CompactSize.Spells (CompactSize.encode v) v ∧
      (CompactSize.encode v).length = CompactSize.size v) ∧
    ∀ b v, CompactSize.Spells b v → b ≠ CompactSize.encode v →
      (CompactSize.encode v).length < b.length ∧
      ∀ before t, compactSize.on (between before (b ++ t)) =
        (.error (.encoding (.notShortest v (before.length + b.length))),
          between before (b ++ t)) := by
  have hpow : Nat.pow 2 64 = Nat.pow 256 8 := by decide
  rw [hpow]
  refine ⟨fun v hv before t => ?_, fun before rest v r h => compactSize_on_eq_ok.1 h,
    fun v hv => ⟨CompactSize.spells_encode hv, CompactSize.length_encode v⟩,
    fun b v h hne => ⟨?_, compactSize_on_spelled h hne⟩⟩
  · exact compactSize_on_eq_ok.2 ⟨hv, t, rfl, rfl⟩
  · -- a spelling that is not the encoding begins with a marker it does not need
    obtain heq | ⟨m, -, -, -, -, hlonger⟩ := h.eq_or_marked
    · exact absurd heq hne
    · exact hlonger

/-- The largest number by itself and the least behind a marker; behind the next marker there is room
for it too, but there it is refused. -/
theorem compactSize_canonical_marker :
    0xfc < Nat.pow 2 64 ∧ 0xfd < Nat.pow 2 64 ∧
    compactSize.on (between [1, 2] ([0xfc] ++ [3])) = (.ok 0xfc, between [1, 2, 0xfc] [3]) ∧
    compactSize.on (between [1, 2] ([0xfd, 0xfd, 0] ++ [3])) =
      (.ok 0xfd, between [1, 2, 0xfd, 0xfd, 0] [3]) ∧
    CompactSize.Spells [0xfe, 0xfd, 0, 0, 0] 0xfd ∧
    [0xfe, 0xfd, 0, 0, 0] ≠ CompactSize.encode 0xfd ∧
    compactSize.on (between [1, 2] ([0xfe, 0xfd, 0, 0, 0] ++ [3])) =
      (.error (.encoding (.notShortest 0xfd 7)), between [1, 2] [0xfe, 0xfd, 0, 0, 0, 3]) := by
  obtain ⟨hread, -, -, hrefused⟩ := compactSize_canonical
  have hspells : CompactSize.Spells [0xfe, 0xfd, 0, 0, 0] 0xfd :=
    .marked (m := 0xfe) (n := 0xfd) (by decide) (by decide)
  have hne : [0xfe, 0xfd, 0, 0, 0] ≠ CompactSize.encode 0xfd := by decide
  exact ⟨by decide, by decide, hread 0xfc (by decide) [1, 2] [3],
    hread 0xfd (by decide) [1, 2] [3], hspells, hne, (hrefused _ _ hspells hne).2 [1, 2] [3]⟩

end Reader

end CoinScript
