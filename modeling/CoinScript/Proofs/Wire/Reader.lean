import CoinScript.Proofs.Except
import CoinScript.Proofs.Wire.Steady

/-!
Reading in place.

A reader keeps its bytes and moves a place in them, so a computation that fails leaves the place
where it happens to be. One that is made to rewind puts it back. Of each computation is shown which
read it follows: it moves within the bytes, gives what the read gives and stops where that stops, or
fails as the read does.
-/

namespace CoinScript

/-- Bytes, and a place in them that reading moves. -/
structure Reader where
  data : Bytes
  position : Nat
  deriving DecidableEq

/-- A computation that moves a reader. -/
abbrev Reading (α : Type) := InPlace Fault Reader α

namespace Reader

def remaining (r : Reader) : Nat := r.data.length - r.position

def moveTo (r : Reader) (p : Nat) : Reader := { r with position := p }

def cursor (r : Reader) : Cursor := ⟨r.position, r.data.drop r.position⟩

/-- The place is one of the bytes. -/
def Within (r : Reader) : Prop := r.position ≤ r.data.length

/-! ### Computations -/

/-- Where a computation fails, it ends where it began. -/
def rewinding {α : Type} (m : Reading α) : Reading α := do
  let start := (← get).position
  tryCatch m fun e => do
    modify (·.moveTo start)
    throw e

def bytes (n : Nat) : Reading Bytes := do
  let r ← get
  if r.remaining < n then throw (.truncated r.position n r.remaining)
  modify fun r => r.moveTo (r.position + n)
  return (r.data.drop r.position).take n

def byte : Reading UInt8 := do
  return (← bytes 1).headD 0

def uint (width : Nat) : Reading Nat := do
  return Bytes.toNatLE (← bytes width)

def int (width : Nat) : Reading Int := do
  return Bytes.toIntLE (← bytes width)

def hash : Reading Hash256 := do
  let r ← get
  match Hash256.ofBytes? ((r.data.drop r.position).take 32) with
  | some h => do
    modify fun r => r.moveTo (r.position + 32)
    return h
  | none => throw (.truncated r.position 32 r.remaining)

/-- A number in its shortest form. A fault leaves the reader behind the marker or the number. -/
def shortest : Reading Nat := do
  let first ← uint 1
  if first < 0xfd then return first
  let (width, least) := CompactSize.form (UInt8.ofNat first)
  let n ← uint width
  if n < least then throw (.encoding (.notShortest n (← get).position))
  return n

def compactSize : Reading Nat :=
  rewinding shortest

def varBytes : Reading Bytes :=
  rewinding do bytes (← compactSize)

/-! ### Places -/

variable {r : Reader} {p n : Nat}

@[simp] lemma remaining_cursor : r.cursor.remaining = r.remaining := List.length_drop

@[simp] lemma offset_cursor : r.cursor.offset = r.position := rfl

lemma advance_cursor : r.cursor.advance n = (r.moveTo (r.position + n)).cursor := by
  simp only [cursor, Cursor.advance, List.drop_drop]
  rfl

lemma within_moveTo (h : p ≤ r.data.length) : (r.moveTo p).Within := h

lemma spans_cursor {b : Bytes} (h : r.cursor.Spans b (r.moveTo p).cursor) :
    p = r.position + b.length ∧ (r.data.drop r.position).take b.length = b := by
  obtain ⟨hrest, hoffset⟩ := h
  refine ⟨hoffset, ?_⟩
  change r.data.drop r.position = _ at hrest
  rw [hrest, List.take_left]

/-! ### Computations that follow reads -/

/-- A computation follows a read: it does what the read does and moves within the bytes, but a
fault may leave it anywhere. -/
structure Follows {α : Type} (m : Reading α) (f : Read α) : Prop where
  ok : ∀ {r v c}, r.Within → f r.cursor = .ok (v, c) →
    ∃ p ≤ r.data.length, c = (r.moveTo p).cursor ∧ m.on r = (.ok v, r.moveTo p)
  error : ∀ {r e}, r.Within → f r.cursor = .error e →
    ∃ p ≤ r.data.length, m.on r = (.error e, r.moveTo p)

/-- A computation that follows a read and leaves the reader where it was if it fails. -/
structure Restores {α : Type} (m : Reading α) (f : Read α) : Prop extends Follows m f where
  back : ∀ {r e}, r.Within → f r.cursor = .error e → m.on r = (.error e, r)

variable {α β : Type} {m : Reading α} {f : Read α}

lemma Restores.of_ok
    (ok : ∀ {r v c}, r.Within → f r.cursor = .ok (v, c) →
      ∃ p ≤ r.data.length, c = (r.moveTo p).cursor ∧ m.on r = (.ok v, r.moveTo p))
    (back : ∀ {r e}, r.Within → f r.cursor = .error e → m.on r = (.error e, r)) : Restores m f where
  ok := ok
  error hr h := ⟨_, hr, back hr h⟩
  back := back

lemma Follows.rewinding (h : Follows m f) : Restores (rewinding m) f := by
  refine .of_ok (fun {r v c} hr hok => ?_) fun {r e} hr herror => ?_
  · obtain ⟨p, hp, hc, hm⟩ := h.ok hr hok
    refine ⟨p, hp, hc, ?_⟩
    rw [Reader.rewinding, InPlace.on_get_bind, InPlace.on_tryCatch, hm]
  · -- the place that the fault has left is forgotten
    obtain ⟨p, -, hm⟩ := h.error hr herror
    rw [Reader.rewinding, InPlace.on_get_bind, InPlace.on_tryCatch, hm]
    rfl

lemma follows_pure (a : α) : Follows (pure a) (pure a) where
  ok {r v c} hr h := by
    obtain ⟨rfl, rfl⟩ := Read.pure_eq_ok.1 h
    exact ⟨r.position, hr, rfl, rfl⟩
  error _ h := nomatch h

lemma follows_throw (e : Fault) : Follows (throw e : Reading α) (throw e) where
  ok _ h := nomatch h
  error {r _} hr h := by
    cases h
    exact ⟨r.position, hr, rfl⟩

lemma Follows.bind {k : α → Reading β} {g : α → Read β} (hm : Follows m f)
    (hk : ∀ a, Follows (k a) (g a)) : Follows (m >>= k) (f >>= g) where
  ok {r v c} hr h := by
    obtain ⟨a, d, ha, hb⟩ := Read.bind_eq_ok.1 h
    obtain ⟨p, hp, rfl, hfirst⟩ := hm.ok hr ha
    obtain ⟨q, hq, hc, hsecond⟩ := (hk a).ok (within_moveTo hp) hb
    refine ⟨q, hq, hc, ?_⟩
    rw [InPlace.on_bind, hfirst]
    exact hsecond
  error {r e} hr h := by
    rcases Read.bind_eq_error.1 h with ha | ⟨a, d, ha, hb⟩
    · obtain ⟨p, hp, hfirst⟩ := hm.error hr ha
      exact ⟨p, hp, by rw [InPlace.on_bind, hfirst]⟩
    · obtain ⟨p, hp, rfl, hfirst⟩ := hm.ok hr ha
      obtain ⟨q, hq, hsecond⟩ := (hk a).error (within_moveTo hp) hb
      refine ⟨q, hq, ?_⟩
      rw [InPlace.on_bind, hfirst]
      exact hsecond

lemma Restores.bind_pure (h : Restores m f) (g : α → β) :
    Restores (m >>= fun a => pure (g a)) (f >>= fun a => pure (g a)) where
  toFollows := h.toFollows.bind fun a => follows_pure (g a)
  back hr herror := by
    rcases Read.bind_eq_error.1 herror with ha | ⟨a, d, -, hb⟩
    · rw [InPlace.on_bind, h.back hr ha]
    · cases hb

lemma Follows.map (h : Follows m f) (g : α → β) : Follows (g <$> m) (g <$> f) := by
  rw [map_eq_pure_bind, map_eq_pure_bind]
  exact h.bind fun a => follows_pure (g a)

lemma follows_get_bind {k : Reader → Reading β} {g : Cursor → Read β}
    (h : ∀ r, Follows (k r) (g r.cursor)) : Follows (get >>= k) (get >>= g) where
  ok {r _ _} hr hok := (h r).ok hr hok
  error {r _} hr herror := (h r).error hr herror

lemma follows_check {c : Prop} [Decidable c] (e : Fault) {k : Unit → Reading β}
    {g : Unit → Read β} (h : Follows (k ()) (g ())) :
    Follows (if c then throw e >>= k else k ()) (if c then throw e >>= g else g ()) := by
  by_cases hc : c
  · rw [if_pos hc, if_pos hc]
    exact (follows_throw e).bind fun _ => h
  · rw [if_neg hc, if_neg hc]
    exact h

/-! ### Bytes and numbers -/

lemma on_bytes (n : Nat) (r : Reader) : (bytes n).on r =
    if r.remaining < n then (.error (.truncated r.position n r.remaining), r)
    else (.ok ((r.data.drop r.position).take n), r.moveTo (r.position + n)) := by
  unfold bytes
  rw [InPlace.on_get_bind]
  by_cases hshort : r.remaining < n
  · rw [if_pos hshort, if_pos hshort]
    rfl
  · rw [if_neg hshort, if_neg hshort]
    rfl

lemma read_bytes (n : Nat) (r : Reader) : Read.bytes n r.cursor =
    if r.remaining < n then .error (.truncated r.position n r.remaining)
    else .ok ((r.data.drop r.position).take n, (r.moveTo (r.position + n)).cursor) := by
  have hshort : (r.cursor.rest.take n).length < n ↔ r.remaining < n := by
    rw [List.length_take, ← remaining_cursor, Cursor.remaining]
    omega
  simp only [Read.bytes, hshort, advance_cursor, remaining_cursor, offset_cursor]
  rfl

lemma restores_bytes (n : Nat) : Restores (bytes n) (Read.bytes n) := by
  refine .of_ok (fun {r v c} hr hok => ?_) fun {r e} hr herror => ?_
  · rw [read_bytes] at hok
    split_ifs at hok with hshort
    cases hok
    refine ⟨r.position + n, ?_, rfl, ?_⟩
    · unfold remaining at hshort
      unfold Within at hr
      omega
    · rw [on_bytes, if_neg hshort]
  · rw [read_bytes] at herror
    split_ifs at herror with hshort
    cases herror
    rw [on_bytes, if_pos hshort]

lemma restores_uint (width : Nat) : Restores (uint width) (Read.uint width) :=
  (restores_bytes width).bind_pure _

lemma restores_int (width : Nat) : Restores (int width) (Read.int width) :=
  (restores_bytes width).bind_pure _

lemma on_hash (r : Reader) : hash.on r =
    match Hash256.ofBytes? (r.cursor.rest.take 32) with
    | some h => (.ok h, r.moveTo (r.position + 32))
    | none => (.error (.truncated r.position 32 r.remaining), r) := by
  unfold hash
  rw [InPlace.on_get_bind]
  change InPlace.on (match Hash256.ofBytes? (r.cursor.rest.take 32) with
    | some h => _
    | none => _) r = _
  cases Hash256.ofBytes? (r.cursor.rest.take 32) <;> rfl

lemma restores_hash : Restores hash Read.hash := by
  refine .of_ok (fun {r h c} hr hok => ?_) fun {r e} hr herror => ?_
  · have hroom : 32 ≤ r.remaining := by
      have hle := (Read.hash_eq_ok.1 hok).length_le
      rwa [h.size, remaining_cursor] at hle
    have hplace : r.position + 32 ≤ r.data.length := by
      unfold remaining at hroom
      omega
    unfold Read.hash at hok
    rw [on_hash]
    cases hbytes : Hash256.ofBytes? (r.cursor.rest.take 32) <;> rw [hbytes] at hok <;> cases hok
    exact ⟨r.position + 32, hplace, advance_cursor, rfl⟩
  · unfold Read.hash at herror
    rw [on_hash]
    cases hbytes : Hash256.ofBytes? (r.cursor.rest.take 32) <;> rw [hbytes] at herror <;>
      cases herror
    rw [remaining_cursor]
    rfl

lemma follows_least {w least : Nat} : Follows
    (do
      let n ← uint w
      if n < least then throw (.encoding (.notShortest n (← get).position))
      return n)
    (do
      let n ← Read.uint w
      if n < least then throw (.encoding (.notShortest n (← get).offset))
      return n) := by
  refine (restores_uint w).toFollows.bind fun n => ?_
  by_cases hleast : n < least
  · rw [if_pos hleast, if_pos hleast]
    exact follows_get_bind fun r => (follows_throw _).bind fun _ => follows_pure n
  · rw [if_neg hleast, if_neg hleast]
    exact follows_pure n

lemma follows_shortest : Follows shortest Read.compactSize := by
  refine (restores_uint 1).toFollows.bind fun first => ?_
  by_cases hfd : first < 0xfd
  · rw [if_pos hfd, if_pos hfd]
    exact follows_pure first
  · rw [if_neg hfd, if_neg hfd]
    exact follows_least

lemma restores_compactSize : Restores compactSize Read.compactSize :=
  follows_shortest.rewinding

lemma restores_varBytes : Restores varBytes Read.varBytes :=
  (restores_compactSize.toFollows.bind fun n => (restores_bytes n).toFollows).rewinding

end Reader

end CoinScript
