import CoinScript.Proofs.Except
import CoinScript.Proofs.Record.Defaults
import CoinScript.Schema.Standard
import Mathlib.Logic.Function.Basic

/-!
Schemas from which records can be built.

Schemas of any kinds may be handed over for the six places of a network, and later others in their
stead. Whatever is accepted, each place has a schema of its own kind, all of whose fields are for
entities of lower rank. So new records, reading and writing come to an end within the levels that
the rank tells, and new records hold the defaults.
-/

namespace CoinScript

variable {kind : EntityKind} {set : SchemaSet}

lemma Schema.ofFields_eq_ok {fields : List FieldDescriptor} {s : Schema kind} :
    ofFields kind fields = .ok s ↔ s.fields = fields := by
  obtain ⟨fields', valid⟩ := s
  unfold ofFields
  split
  · rw [Except.ok.injEq, mk.injEq]
    exact eq_comm
  · rename_i fault hfault
    refine iff_of_false (fun h => nomatch h) ?_
    rintro rfl
    exact absurd (valid.symm.trans hfault) (nofun)

namespace SchemaSet

/-! ### Places -/

/-- Six places, with a schema of any kind in each. -/
abbrev Placement := EntityKind → AnySchema

lemma asKind_eq_ok {s : AnySchema} {x : Schema kind} : asKind kind s = .ok x ↔ s = ⟨kind, x⟩ := by
  obtain ⟨found, s⟩ := s
  unfold asKind
  split
  · rename_i h
    cases h
    simp
  · rename_i h
    refine iff_of_false (fun h => nomatch h) fun hs => h (congrArg Sigma.fst hs)

lemma placed_of_assemble {p : Placement}
    (h : assemble (p .outPoint) (p .txIn) (p .txOut) (p .transaction) (p .blockHeader) (p .block) =
      .ok set) (k : EntityKind) : p k = ⟨k, set.get k⟩ := by
  simp only [assemble, Except.bind_eq_ok, asKind_eq_ok] at h
  obtain ⟨outpoint, h₁, txin, h₂, txout, h₃, transaction, h₄, header, h₅, block, h₆, hset⟩ := h
  cases hset
  cases k <;> assumption

/-- What schemas there are in the places of a network, and the network: that of the standard
layouts, what is put together of six schemas, and what it becomes by replacing schemas. -/
inductive Obtained : Placement → SchemaSet → Prop
  | standard : Obtained (fun k => ⟨k, Standard.bitcoin.get k⟩) Standard.bitcoin
  | assembled {p : Placement} {set : SchemaSet}
      (h : assemble (p .outPoint) (p .txIn) (p .txOut) (p .transaction) (p .blockHeader)
        (p .block) = .ok set) : Obtained p set
  | replaced {p : Placement} {set : SchemaSet} {kind : EntityKind} {fields : List FieldDescriptor}
      {s : Schema kind} (hp : Obtained p set) (h : Schema.ofFields kind fields = .ok s) :
      Obtained (Function.update p kind ⟨kind, s⟩) (set.replace kind s)

lemma placed_replace {p : Placement} (hp : ∀ k, p k = ⟨k, set.get k⟩) (s : Schema kind)
    (k : EntityKind) : Function.update p kind ⟨kind, s⟩ k = ⟨k, (set.replace kind s).get k⟩ := by
  by_cases hk : k = kind
  · subst hk
    rw [Function.update_self, get_replace]
  · rw [Function.update_of_ne hk, get_replace_ne set s hk, hp k]

lemma Obtained.placed {p : Placement} (h : Obtained p set) (k : EntityKind) :
    p k = ⟨k, set.get k⟩ := by
  induction h generalizing k with
  | standard => rfl
  | assembled h => exact placed_of_assemble h k
  | replaced _ _ ih => exact placed_replace ih _ k

/-! ### Records from the ground up -/

/-- Making, reading and writing records of a network come to an end, whatever would be done below
the levels told by the rank of a kind, and new records hold the defaults. Writing is told of all
records, since a record may hold those of other networks. -/
structure Grounded (set : SchemaSet) : Prop where
  accepted (k : EntityKind) : Schema.ofFields k (set.fields k) = .ok (set.get k)
  lower (k : EntityKind) : ∀ f ∈ set.fields k, ∀ inner, f.encoding.child? = some inner →
    inner.rank < k.rank
  made (k : EntityKind) (cut : EntityKind → Record) (d : Nat) :
    k.rank < d → Record.newWithin set cut d k = Record.new set k
  read (k : EntityKind) (cut : EntityKind → Read Record) (d : Nat) :
    k.rank < d → Read.recordWithin set cut d k = Read.record set k
  written (r : Record) (cut : Record → Bytes) (d : Nat) :
    r.depth ≤ d → Record.writeWithin cut d r = r.serialize
  levels (r : Record) : r.WellKinded → r.depth ≤ r.kind.rank + 1
  reachable (r : Record) : Record.Reachable set r → r.WellKinded
  slots (k : EntityKind) : (Record.new set k).values.length = (set.fields k).length
  defaults (k : EntityKind) (i : Nat) (f : FieldDescriptor) : (set.fields k)[i]? = some f →
    if f.presence.holds ((Record.new set k).slots.take i) then
      ∃ v, (Record.new set k).slots[i]? = some (f, some v) ∧ f.encoding.StartsAs set f.default? v
    else (Record.new set k).slots[i]? = some (f, none)

/-- **Records are grounded** under all schemas that a network can be given: each schema is in the
place of its kind, and nothing goes on deeper than ranks do. -/
theorem records_grounded {p : Placement} (h : Obtained p set) :
    (∀ k, p k = ⟨k, set.get k⟩) ∧ set.Grounded := by
  refine ⟨h.placed, ?_⟩
  exact {
    accepted := fun k => Schema.ofFields_eq_ok.2 rfl
    lower := set.below
    made := fun k cut d hd => Record.newWithin_eq cut hd
    read := fun k cut d hd => Read.recordWithin_eq cut hd
    written := fun r cut d hd => Record.writeWithin_eq cut hd
    levels := fun r hr => hr.depth_le
    reachable := fun r hr => hr.wellKinded
    slots := Record.length_new set
    defaults := fun k i f hf => Record.new_slot hf }

theorem records_grounded_timed :
    Obtained (Function.update (fun k => ⟨k, Standard.bitcoin.get k⟩) .transaction
      ⟨.transaction, Standard.clams.transaction⟩)
      (Standard.bitcoin.replace .transaction Standard.clams.transaction) ∧
    (Standard.bitcoin.replace .transaction Standard.clams.transaction).Grounded := by
  have h := Obtained.replaced .standard
    (Schema.ofFields_eq_ok.2 (rfl : Standard.clams.transaction.fields = _))
  exact ⟨h, (records_grounded h).2⟩

end SchemaSet

namespace Record

/-- Pushing does not look at kinds. A transaction with an input, pushed where inputs are, has its
outpoint at a level below those that the rank of the outer transaction tells. -/
theorem rank_exceeded :
    ∃ inner r, (new Standard.bitcoin .transaction).push? FieldName.inputs
        (new Standard.bitcoin .txIn) = some inner ∧
      (new Standard.bitcoin .transaction).push? FieldName.inputs inner = some r ∧
      r.kind.rank + 1 < r.depth ∧
      writeWithin (fun _ => []) (r.kind.rank + 1) r ≠ r.serialize := by
  refine ⟨_, _, rfl, rfl, ?_, ?_⟩
  · decide +kernel
  · decide +kernel

end Record

end CoinScript
