import CoinScript.Block
import CoinScript.Proofs.Record.Reading
import CoinScript.Proofs.Wire.Reader
import CoinScript.Schema.Standard

/-!
A reader and the calls it is asked for.

A record is read in place field by field, and the records in it without rewinding, so a fault may
leave the reader anywhere behind the start of the outermost one; only there it is put back. However
a reader has been used before, failed calls included, a call either fails and leaves it where it
was, or gives a value and moves it over the bytes of that value.
-/

namespace CoinScript

namespace Reader

/-! ### Records in place -/

def repeated {α : Type} (item : Reading α) : (count : Nat) → Reading (List α)
  | 0 => return []
  | count + 1 => do
    let a ← item
    let as ← repeated item count
    return a :: as

section

variable {n : Nat} {k : EntityKind} {f : FieldDescriptor} {fs : List FieldDescriptor}

lemma rank_of_nested (h : (FieldEncoding.nested k).Below n) : k.rank < n := h k rfl

lemma rank_of_vector (h : (FieldEncoding.vector k).Below n) : k.rank < n := h k rfl

lemma below_head (h : ∀ g ∈ f :: fs, g.encoding.Below n) : f.encoding.Below n :=
  h f List.mem_cons_self

lemma below_tail (h : ∀ g ∈ f :: fs, g.encoding.Below n) : ∀ g ∈ fs, g.encoding.Below n :=
  fun g hg => h g (List.mem_cons_of_mem _ hg)

end

def field {n : Nat} (entity : (k : EntityKind) → k.rank < n → Reading Record)
    (e : FieldEncoding) (h : e.Below n) : Reading FieldValue :=
  match e, h with
  | .int width signed, _ =>
    if signed then return .int (← int width) else return .uint (← uint width)
  | .fixedBytes width, _ => return .bytes (← bytes width)
  | .varBytes, _ => return .bytes (← varBytes)
  | .script, _ => return .script ⟨← varBytes⟩
  | .hash, _ => return .hash (← hash)
  | .nested k, h => return .record (← entity k (rank_of_nested h))
  | .vector k, h => do
    let count ← compactSize
    let r ← get
    if r.remaining < count then throw (.truncated r.position count r.remaining)
    return .records (← repeated (entity k (rank_of_vector h)) count)

def slots {n : Nat} (entity : (k : EntityKind) → k.rank < n → Reading Record) :
    (todo : List FieldDescriptor) → (earlier : List (FieldDescriptor × Option FieldValue)) →
    (∀ f ∈ todo, f.encoding.Below n) → Reading (List (Option FieldValue))
  | [], _, _ => return []
  | f :: rest, earlier, h => do
    let slot ←
      if f.presence.holds earlier then some <$> field entity f.encoding (below_head h)
      else pure none
    let slots ← slots entity rest (earlier ++ [(f, slot)]) (below_tail h)
    return slot :: slots

def recordBelow (set : SchemaSet) : (n : Nat) → (k : EntityKind) → k.rank < n → Reading Record
  | 0, _, h => absurd h (Nat.not_lt_zero _)
  | n + 1, k, h => do
    let values ← slots (recordBelow set n) (set.fields k) [] fun f hf c hc =>
      Nat.lt_of_lt_of_le (set.below k f hf c hc) (Nat.le_of_lt_succ h)
    return .mk set k values

def record (set : SchemaSet) (k : EntityKind) : Reading Record :=
  rewinding (recordBelow set (k.rank + 1) k k.rank_lt_succ)

/-! ### What they follow -/

lemma Follows.repeated {α : Type} {m : Reading α} {f : Read α} (h : Follows m f) (count : Nat) :
    Follows (repeated m count) (Read.repeated f count) := by
  induction count with
  | zero => exact follows_pure []
  | succ count ih => exact h.bind fun a => ih.bind fun as => follows_pure (a :: as)

section

variable {n : Nat} {entity : (k : EntityKind) → k.rank < n → Reading Record}
  {entity' : (k : EntityKind) → k.rank < n → Read Record}

lemma follows_field (hent : ∀ k h, Follows (entity k h) (entity' k h)) (e : FieldEncoding)
    (hb : e.Below n) : Follows (field entity e hb) (Read.field entity' e hb) := by
  cases e with
  | int w signed =>
    cases signed with
    | true => exact ((restores_int w).bind_pure _).toFollows
    | false => exact ((restores_uint w).bind_pure _).toFollows
  | fixedBytes w => exact ((restores_bytes w).bind_pure _).toFollows
  | varBytes => exact (restores_varBytes.bind_pure _).toFollows
  | script => exact (restores_varBytes.bind_pure _).toFollows
  | hash => exact (restores_hash.bind_pure _).toFollows
  | nested k => exact (hent k (rank_of_nested hb)).bind fun r => follows_pure _
  | vector k =>
    refine restores_compactSize.toFollows.bind fun count => follows_get_bind fun r => ?_
    rw [remaining_cursor, offset_cursor]
    exact follows_check _ (((hent k (rank_of_vector hb)).repeated count).bind fun rs =>
      follows_pure _)

lemma follows_slots (hent : ∀ k h, Follows (entity k h) (entity' k h))
    (fs : List FieldDescriptor) (earlier : List (FieldDescriptor × Option FieldValue))
    (hb : ∀ f ∈ fs, f.encoding.Below n) :
    Follows (slots entity fs earlier hb) (Read.slots entity' earlier fs hb) := by
  induction fs generalizing earlier with
  | nil =>
    rw [slots, Read.slots]
    exact follows_pure []
  | cons f fs ih =>
    rw [slots, Read.slots]
    by_cases hpresent : f.presence.holds earlier = true
    · rw [if_pos hpresent, if_pos hpresent]
      exact ((follows_field hent f.encoding _).map some).bind fun slot =>
        (ih _ _).bind fun rest => follows_pure (slot :: rest)
    · rw [if_neg hpresent, if_neg hpresent]
      exact (follows_pure none).bind fun slot => (ih _ _).bind fun rest =>
        follows_pure (slot :: rest)

end

lemma follows_recordBelow (set : SchemaSet) (n : Nat) (k : EntityKind) (h : k.rank < n) :
    Follows (recordBelow set n k h) (Read.recordBelow set n k h) := by
  induction n generalizing k with
  | zero => exact absurd h (Nat.not_lt_zero _)
  | succ n ih => exact (follows_slots ih _ [] _).bind fun values => follows_pure _

lemma restores_record (set : SchemaSet) (k : EntityKind) :
    Restores (record set k) (Read.record set k) :=
  (follows_recordBelow set _ k _).rewinding

/-- An outpoint without its index, before it is rewound: the hash has been passed over. -/
example : ((recordBelow Standard.bitcoin 1 .outPoint (by decide)).on
    (⟨List.replicate 33 0, 0⟩ : Reader)).2.position = 32 := rfl

end Reader

/-! ### Calls -/

/-- What a reader can be asked for. -/
inductive ReadCall where
  | byte
  | uint (width : Fin 9)
  | bytes (n : Nat)
  | compactSize
  | varBytes
  | record (set : SchemaSet) (kind : EntityKind)
  | transaction (set : SchemaSet)
  | block (set : SchemaSet)

namespace ReadCall

def Value : ReadCall → Type
  | byte => UInt8
  | uint _ => Nat
  | bytes _ => Bytes
  | compactSize => Nat
  | varBytes => Bytes
  | record _ _ => Record
  | transaction _ => Transaction
  | block _ => Block

/-- The values that a call can give. -/
def Fits : (call : ReadCall) → call.Value → Prop
  | byte, _ => True
  | uint width, (n : Nat) => n < Nat.pow 256 width
  | bytes n, b => b.length = n
  | compactSize, (n : Nat) => n < Nat.pow 256 8
  | varBytes, b => b.length < Nat.pow 256 8
  | record set kind, r => r.WellFormed set kind
  | transaction set, tx => tx.record.WellFormed set .transaction
  | block set, b => b.record.WellFormed set .block

def encode : (call : ReadCall) → call.Value → Bytes
  | byte, x => [x]
  | uint width, n => Bytes.ofNatLE width n
  | bytes _, b => b
  | compactSize, n => CompactSize.encode n
  | varBytes, b => CompactSize.encodeBytes b
  | record _ _, r => r.serialize
  | transaction _, tx => tx.serialize
  | block _, b => b.serialize

def read : (call : ReadCall) → Read call.Value
  | byte => do return (← Read.bytes 1).headD 0
  | uint width => Read.uint width
  | bytes n => Read.bytes n
  | compactSize => Read.compactSize
  | varBytes => Read.varBytes
  | record set kind => Read.record set kind
  | transaction set => Read.transaction set
  | block set => Read.block set

/-- What a call does to a reader. -/
def run : (call : ReadCall) → Reading call.Value
  | byte => Reader.byte
  | uint width => Reader.uint width
  | bytes n => Reader.bytes n
  | compactSize => Reader.compactSize
  | varBytes => Reader.varBytes
  | record set kind => Reader.record set kind
  | transaction set => do return ⟨← Reader.record set .transaction⟩
  | block set => do return ⟨← Reader.record set .block⟩

/-- **Every call that fails** leaves the reader where it was. -/
lemma restores (call : ReadCall) : Reader.Restores call.run call.read := by
  cases call with
  | byte => exact (Reader.restores_bytes 1).bind_pure _
  | uint width => exact Reader.restores_uint width
  | bytes n => exact Reader.restores_bytes n
  | compactSize => exact Reader.restores_compactSize
  | varBytes => exact Reader.restores_varBytes
  | record set kind => exact Reader.restores_record set kind
  | transaction set => exact (Reader.restores_record set .transaction).bind_pure _
  | block set => exact (Reader.restores_record set .block).bind_pure _

lemma spans_of_read {call : ReadCall} {v : call.Value} {c c' : Cursor}
    (h : call.read c = .ok (v, c')) : call.Fits v ∧ c.Spans (call.encode v) c' := by
  cases call with
  | byte =>
    obtain ⟨b, d, hb, h⟩ := Read.bind_eq_ok.1 h
    obtain ⟨rfl, rfl⟩ := Read.pure_eq_ok.1 h
    obtain ⟨hlength, hs⟩ := Read.bytes_eq_ok.1 hb
    obtain ⟨x, rfl⟩ := List.length_eq_one_iff.1 hlength
    exact ⟨trivial, hs⟩
  | uint width => exact Read.uint_eq_ok.1 h
  | bytes n => exact Read.bytes_eq_ok.1 h
  | compactSize => exact Read.compactSize_eq_ok.1 h
  | varBytes => exact Read.varBytes_eq_ok.1 h
  | record set kind => exact Read.record_faithful kind _ _ _ h
  | transaction set =>
    obtain ⟨r, d, hr, h⟩ := Read.bind_eq_ok.1 h
    obtain ⟨rfl, rfl⟩ := Read.pure_eq_ok.1 h
    exact Read.record_faithful .transaction _ _ _ hr
  | block set =>
    obtain ⟨r, d, hr, h⟩ := Read.bind_eq_ok.1 h
    obtain ⟨rfl, rfl⟩ := Read.pure_eq_ok.1 h
    exact Read.record_faithful .block _ _ _ hr

end ReadCall

namespace Reader

def ofBytes (b : Bytes) : Reader := ⟨b, 0⟩

/-- A call, how it ended, and the reader before and after it. -/
structure Exchange where
  before : Reader
  call : ReadCall
  answer : Except Fault call.Value
  after : Reader

def exchange (r : Reader) (call : ReadCall) : Exchange :=
  ⟨r, call, (call.run.on r).1, (call.run.on r).2⟩

def trace (r : Reader) : List ReadCall → List Exchange
  | [] => []
  | call :: calls => r.exchange call :: (r.exchange call).after.trace calls

/-- What a call may do to a reader of some bytes: fail and leave it, or give a value and move it
over the bytes of that value. -/
structure Exchange.Exact (x : Exchange) (b : Bytes) : Prop where
  data : x.after.data = b
  within : x.after.position ≤ b.length
  failed : ∀ e, x.answer = .error e → x.after = x.before
  read : ∀ v, x.answer = .ok v → x.call.Fits v ∧
    x.after.position = x.before.position + (x.call.encode v).length ∧
    (b.drop x.before.position).take (x.call.encode v).length = x.call.encode v
  agrees : x.answer = Prod.fst <$> x.call.read x.before.cursor

lemma exact_exchange {r : Reader} (hr : r.Within) (call : ReadCall) :
    (r.exchange call).Exact r.data := by
  cases hread : call.read r.cursor with
  | error e =>
    have hexchange : r.exchange call = ⟨r, call, .error e, r⟩ := by
      rw [exchange, call.restores.back hr hread]
    rw [hexchange]
    exact ⟨rfl, hr, fun _ _ => rfl, nofun, by rw [hread]; rfl⟩
  | ok vc =>
    obtain ⟨v, c⟩ := vc
    obtain ⟨p, hp, rfl, hon⟩ := call.restores.ok hr hread
    obtain ⟨hfits, hspans⟩ := ReadCall.spans_of_read hread
    obtain ⟨hposition, hbytes⟩ := spans_cursor hspans
    have hexchange : r.exchange call = ⟨r, call, .ok v, r.moveTo p⟩ := by
      rw [exchange, hon]
    rw [hexchange]
    refine ⟨rfl, hp, nofun, fun w hw => ?_, by rw [hread]; rfl⟩
    cases hw
    exact ⟨hfits, hposition, hbytes⟩

lemma trace_exact_of_within {r : Reader} (hr : r.Within) (calls : List ReadCall) :
    ∀ x ∈ r.trace calls, x.Exact r.data := by
  -- failed calls leave the reader within its bytes too, so that the next one finds it there
  induction calls generalizing r with
  | nil => exact fun x hx => absurd hx List.not_mem_nil
  | cons call calls ih =>
    have hfirst := exact_exchange hr call
    have hrest : ∀ x ∈ (r.exchange call).after.trace calls, x.Exact r.data := by
      have hafter : (r.exchange call).after.Within := by
        rw [Within, hfirst.data]
        exact hfirst.within
      have htrace := ih hafter
      rwa [hfirst.data] at htrace
    rw [trace]
    exact List.forall_mem_cons.2 ⟨hfirst, hrest⟩

/-- **Failed calls never move a reader**, however many calls of whatever kinds there are: a reader
stays within its bytes, a call that fails leaves it where it was, and one that gives a value moves
it over the bytes of that value. -/
theorem trace_exact (b : Bytes) (calls : List ReadCall) :
    ∀ x ∈ (ofBytes b).trace calls, x.Exact b :=
  trace_exact_of_within (Nat.zero_le _) calls

/-- A number that is not the shortest, bytes that are cut off, and a record that is: each is asked
for again as something else from the same place. -/
theorem trace_exact_retried :
    ((ofBytes [0xfd, 0x10, 0, 5, 1, 2]).trace [.compactSize, .uint 3, .varBytes,
      .record Standard.bitcoin .outPoint, .byte, .bytes 2]).map (·.after.position) =
        [0, 3, 3, 3, 4, 6] ∧
    ∃ x ∈ (ofBytes [0xfd, 0x10, 0, 5, 1, 2]).trace [.compactSize, .uint 3, .varBytes,
      .record Standard.bitcoin .outPoint, .byte, .bytes 2],
      x.call = .varBytes ∧ x.Exact [0xfd, 0x10, 0, 5, 1, 2] := by
  refine ⟨rfl, _, List.mem_cons_of_mem _ (List.mem_cons_of_mem _ List.mem_cons_self),
    rfl, ?_⟩
  exact trace_exact _ [.compactSize, .uint 3, .varBytes, .record Standard.bitcoin .outPoint, .byte,
    .bytes 2] _ (List.mem_cons_of_mem _ (List.mem_cons_of_mem _ List.mem_cons_self))

end Reader

end CoinScript
