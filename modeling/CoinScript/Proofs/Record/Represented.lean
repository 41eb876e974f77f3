import CoinScript.Proofs.Record.RoundTrip

/-!
What the slots of a record hold, after any changes.

A record has one slot for each field of its schema. A slot is filled exactly if the condition of
its field holds on the slots before it, and then with a value of the field. So writing never meets
a value that it would have to leave out. This is so of the records that can be come by, and stays so
through all changes in any order, those that fail included, for the record itself and for every
record inside.
-/

namespace CoinScript

/-! ### Writing without leaving anything out -/

mutual

/-- The bytes of a record, if each slot has a field and each value is one that its field writes. -/
def Record.strict? : Record → Option Bytes
  | .mk set k values => Record.strictSlots? (set.fields k) values

def Record.strictSlots? : List FieldDescriptor → List (Option FieldValue) → Option Bytes
  | [], [] => some []
  | f :: fs, v? :: vs => do
    let slot ← Record.strictSlot? f.encoding v?
    let rest ← Record.strictSlots? fs vs
    return slot ++ rest
  | _, _ => none

def Record.strictSlot? (e : FieldEncoding) : Option FieldValue → Option Bytes
  | none => some []
  | some v => FieldValue.strict? e v

/-- The bytes of a value under an encoding, if the encoding writes such values. -/
def FieldValue.strict? : FieldEncoding → FieldValue → Option Bytes
  | .int width _, .int v => some (Bytes.ofIntLE width v)
  | .int width _, .uint v => some (Bytes.ofNatLE width v)
  | .fixedBytes _, .bytes b => some b
  | .varBytes, .bytes b => some (CompactSize.encodeBytes b)
  | .script, .script s => some (CompactSize.encodeBytes s.bytes)
  | .hash, .hash h => some h.bytes
  | .nested _, .record r => r.strict?
  | .vector _, .records rs => (Record.strictAll? rs).map (CompactSize.encode rs.length ++ ·)
  | _, _ => none

def Record.strictAll? : List Record → Option Bytes
  | [] => some []
  | r :: rs => do
    let first ← r.strict?
    let rest ← Record.strictAll? rs
    return first ++ rest

end

variable {set : SchemaSet} {n : Nat}

namespace Record

lemma strictAll?_eq {rs : List Record} (h : ∀ r ∈ rs, r.strict? = some r.serialize) :
    strictAll? rs = some (writeAll rs) := by
  induction rs with
  | nil => simp [strictAll?, writeAll]
  | cons r rs ih =>
    have hr := h r List.mem_cons_self
    have hrs := ih fun x hx => h x (List.mem_cons_of_mem _ hx)
    simp [strictAll?, writeAll, hr, hrs]

end Record

lemma FieldValue.Matches.strict?_eq {e : FieldEncoding} {v : FieldValue} (hv : v.Matches set e)
    (hb : e.Below n) (hent : ∀ (k : EntityKind) (r : Record), k.rank < n → r.WellFormed set k →
      r.strict? = some r.serialize) : v.strict? e = some (v.write e) := by
  cases hv with
  | nested wf =>
    simp only [strict?, write]
    exact hent _ _ (hb _ rfl) wf
  | vector wf =>
    simp [strict?, write, Record.strictAll?_eq fun r hr => hent _ r (hb _ rfl) (wf r hr)]
  | _ => simp [strict?, write]

namespace Record

variable {k : EntityKind} {r : Record} {earlier : List (FieldDescriptor × Option FieldValue)}
  {fs : List FieldDescriptor} {vs : List (Option FieldValue)}

lemma Settled.strictSlots?_eq (h : Settled set earlier fs vs)
    (hb : ∀ f ∈ fs, f.encoding.Below n) (hent : ∀ (k : EntityKind) (r : Record), k.rank < n →
      r.WellFormed set k → r.strict? = some r.serialize) :
    strictSlots? fs vs = some (writeSlots fs vs) := by
  induction fs generalizing earlier vs with
  | nil =>
    cases h
    simp [strictSlots?, writeSlots]
  | cons f fs ih =>
    have hbs : ∀ g ∈ fs, g.encoding.Below n := fun g hg => hb g (List.mem_cons_of_mem _ hg)
    cases h with
    | filled _ fits rest =>
      have hv := fits.strict?_eq (hb f List.mem_cons_self) hent
      simp [strictSlots?, strictSlot?, writeSlots, writeSlot, hv, ih rest hbs]
    | absent _ rest => simp [strictSlots?, strictSlot?, writeSlots, writeSlot, ih rest hbs]

theorem WellFormed.strict?_eq (h : r.WellFormed set k) : r.strict? = some r.serialize := by
  have below (n : Nat) : ∀ (k : EntityKind) (r : Record), k.rank < n → r.WellFormed set k →
      r.strict? = some r.serialize := by
    induction n with
    | zero => exact fun _ _ hk => absurd hk (Nat.not_lt_zero _)
    | succ n ih =>
      rintro k _ hk ⟨settled⟩
      have hb : ∀ f ∈ set.fields k, f.encoding.Below n := fun f hf c hc =>
        Nat.lt_of_lt_of_le (set.below k f hf c hc) (Nat.le_of_lt_succ hk)
      rw [strict?, serialize]
      exact settled.strictSlots?_eq hb ih
  exact below (k.rank + 1) k r k.rank_lt_succ h

/-! ### Filled slots -/

lemma Settled.isSome_eq (h : Settled set earlier fs vs) {i : Nat} {f : FieldDescriptor}
    {v? : Option FieldValue} (hi : (fs.zip vs)[i]? = some (f, v?)) :
    v?.isSome = f.presence.holds (earlier ++ (fs.zip vs).take i) := by
  induction fs generalizing earlier vs i with
  | nil => simp at hi
  | cons g fs ih =>
    cases h with
    | filled holds _ rest =>
      cases i with
      | zero =>
        cases hi
        simp [holds]
      | succ i => simpa using ih rest hi
    | absent fails rest =>
      cases i with
      | zero =>
        cases hi
        simp [fails]
      | succ i => simpa using ih rest hi

/-- A record whose slots are those that its schema asks for. -/
structure Represented (set : SchemaSet) (r : Record) : Prop where
  schemas : r.schemas = set
  /-- One slot for each field. -/
  length : r.values.length = (set.fields r.kind).length
  /-- Filled exactly where the condition of the field holds on the slots before. -/
  filled : ∀ (i : Nat) (f : FieldDescriptor) (v? : Option FieldValue),
    r.slots[i]? = some (f, v?) → (v?.isSome = true ↔ f.presence.holds (r.slots.take i) = true)
  /-- Filled with a value of the field. -/
  fits : ∀ p ∈ r.present, p.2.Matches set p.1.encoding
  /-- Nothing is left out on the wire. -/
  strict : r.strict? = some r.serialize

lemma Represented.of_wellFormed (h : r.WellFormed set k) : r.Represented set := by
  have strict := h.strict?_eq
  cases h with
  | @mk _ values settled =>
    refine ⟨rfl, settled.length_eq, ?_, ?_, strict⟩
    · intro i f v? hi
      rw [settled.isSome_eq hi, List.nil_append]
      rfl
    · rintro ⟨f, v⟩ hp
      obtain ⟨⟨g, w?⟩, hslot, hv⟩ := List.mem_filterMap.1 hp
      obtain ⟨w, rfl, hw⟩ := Option.map_eq_some_iff.1 hv
      cases hw
      obtain ⟨i, hi⟩ := List.mem_iff_getElem?.1 hslot
      obtain ⟨hf, hvalue⟩ := List.getElem?_zip_eq_some.1 hi
      obtain ⟨f', hf', fits⟩ := settled.fits_of_filled hvalue
      cases hf.symm.trans hf'
      exact fits

/-! ### Changes -/

/-- A change of a record where it stands. -/
inductive Change where
  | set (name : String) (v : FieldValue)
  | setInt (name : String) (v : Int)
  /-- A vector gets other records: some are pushed, removed or put elsewhere. -/
  | vector (name : String) (edit : List Record → List Record)
  /-- A record inside is changed. -/
  | inside (s : Step) (c : Change)

namespace Change

/-- The record after a change. A change that fails leaves it as it was. -/
def apply : Change → Record → Record
  | .set name v, r => (r.set name v).toOption.getD r
  | .setInt name v, r => (r.setInt name v).toOption.getD r
  | .vector name edit, r =>
    match r.vector? name with
    | some (rs, put) => put (edit rs)
    | none => r
  | .inside s c, r =>
    match r.step? s with
    | some (inner, put) => put (c.apply inner)
    | none => r

def applyAll (cs : List Change) (r : Record) : Record :=
  cs.foldl (fun r c => c.apply r) r

/-- A change that puts only records that can be come by into a record, and into a vector only those
of its kind. -/
def Proper (set : SchemaSet) : Change → Record → Prop
  | .set _ v, _ => ∀ x ∈ v.parts, Reachable set x
  | .setInt _ _, _ => True
  | .vector name edit, r => ∀ rs put, r.vector? name = some (rs, put) → ∀ x ∈ edit rs, x ∈ rs ∨
    Reachable set x ∧ ∃ f, r.schema.field? name = some f ∧ f.encoding = .vector x.kind
  | .inside s c, r => ∀ inner put, r.step? s = some (inner, put) → c.Proper set inner

def AllProper (set : SchemaSet) : List Change → Record → Prop
  | [], _ => True
  | c :: cs, r => c.Proper set r ∧ AllProper set cs (c.apply r)

/-! ### What changes keep -/

lemma kind_set {name : String} {v : FieldValue} {r' : Record} (h : r.set name v = .ok r') :
    r'.kind = r.kind := by
  obtain ⟨_, _, _, _, -, -, rfl⟩ := set_eq_ok h
  rfl

lemma kind_setInt {name : String} {v : Int} {r' : Record} (h : r.setInt name v = .ok r') :
    r'.kind = r.kind := by
  unfold Record.setInt at h
  split_ifs at h
  · exact kind_set h
  · exact kind_set h

lemma kind_step? {s : Step} {inner : Record} {put : Record → Record}
    (h : r.step? s = some (inner, put)) (x : Record) : (put x).kind = r.kind := by
  cases s with
  | field name =>
    obtain ⟨_, -, -, rfl⟩ := nested?_eq_some h
    rfl
  | element name index =>
    obtain ⟨_, _, hrs, -, rfl⟩ := element?_eq_some h
    obtain ⟨_, -, -, rfl⟩ := vector?_eq_some hrs
    rfl

lemma kind_apply (c : Change) (r : Record) : (c.apply r).kind = r.kind := by
  cases c with
  | set name v =>
    cases h : r.set name v with
    | error e => simp [apply, h, Except.toOption]
    | ok r' => simp [apply, h, Except.toOption, kind_set h]
  | setInt name v =>
    cases h : r.setInt name v with
    | error e => simp [apply, h, Except.toOption]
    | ok r' => simp [apply, h, Except.toOption, kind_setInt h]
  | vector name edit =>
    cases h : r.vector? name with
    | none => simp [apply, h]
    | some p =>
      obtain ⟨_, -, -, hput⟩ := vector?_eq_some h
      simp only [apply, h, hput]
      rfl
  | inside s c =>
    cases h : r.step? s with
    | none => simp [apply, h]
    | some p => simp [apply, h, kind_step? h]

lemma field?_of_vector? {name : String} {rs : List Record} {put : List Record → Record}
    (hr : r.WellFormed set k) (h : r.vector? name = some (rs, put)) :
    ∃ f k', r.schema.field? name = some f ∧ f.encoding = .vector k' ∧ ∀ x ∈ rs, x.kind = k' := by
  obtain ⟨i, hi, hv, -⟩ := vector?_eq_some h
  obtain ⟨k', hk', wf, -⟩ := vector?_wellFormed hr h
  obtain ⟨f, hf, -⟩ := hr.settled.fits_of_filled hv
  have hfield : r.schema.field? name = some f := by
    cases hr with
    | mk settled =>
      unfold Schema.field?
      unfold Schema.position? at hi
      rw [List.find?_eq_bind_findIdx?_getElem?, hi]
      exact hf
  exact ⟨f, k', hfield, hk' f hfield, fun x hx => (wf x hx).kind_eq⟩

/-- **A proper change** makes a record that can be come by of one that can. -/
lemma reachable_apply {c : Change} (hr : Reachable set r) (hc : c.Proper set r) :
    Reachable set (c.apply r) := by
  induction c generalizing r with
  | set name v =>
    cases h : r.set name v with
    | error e => simpa [apply, h, Except.toOption] using hr
    | ok r' => simpa [apply, h, Except.toOption] using hr.set hc h
  | setInt name v =>
    cases h : r.setInt name v with
    | error e => simpa [apply, h, Except.toOption] using hr
    | ok r' => simpa [apply, h, Except.toOption] using hr.setInt h
  | vector name edit =>
    cases h : r.vector? name with
    | none => simpa [apply, h] using hr
    | some p =>
      obtain ⟨rs, put⟩ := p
      obtain ⟨f, k', hf, he, hkind⟩ := field?_of_vector? hr.wellFormed h
      have hpart (x : Record) (hx : x ∈ rs) : Reachable set x := by
        obtain ⟨i, hi⟩ := List.mem_iff_getElem?.1 hx
        exact .part (s := .element name i) hr (by simp [step?, element?, h, hi]; rfl)
      -- what the edit leaves is old, and so a part of this record, or it is new and of the kind
      -- the vector asks for
      have hx (x : Record) (hx : x ∈ edit rs) : Reachable set x ∧ x.kind = k' := by
        rcases hc rs put h x hx with hold | ⟨hnew, g, hg, hge⟩
        · exact ⟨hpart x hold, hkind x hold⟩
        · cases hf.symm.trans hg
          cases he.symm.trans hge
          exact ⟨hnew, rfl⟩
      simpa [apply, h] using hr.vector h hf he (fun x h => (hx x h).1) (fun x h => (hx x h).2)
  | inside s c ih =>
    cases h : r.step? s with
    | none => simpa [apply, h] using hr
    | some p =>
      obtain ⟨inner, put⟩ := p
      have hinner := ih (hr.part h) (hc inner put h)
      simpa [apply, h] using hr.edit h hinner (kind_apply c inner)

lemma reachable_applyAll {cs : List Change} (hr : Reachable set r) (hcs : AllProper set cs r) :
    Reachable set (applyAll cs r) := by
  induction cs generalizing r with
  | nil => exact hr
  | cons c cs ih => exact ih (reachable_apply hr hcs.1) hcs.2

end Change

lemma Reachable.at? {path : List Step} {inner : Record} {put : Record → Record}
    (hr : Reachable set r) (h : at? path r = some (inner, put)) : Reachable set inner := by
  induction path generalizing r inner put with
  | nil =>
    cases h
    exact hr
  | cons s path ih =>
    simp only [Record.at?, Option.bind_eq_bind, Option.bind_eq_some_iff] at h
    obtain ⟨⟨x, putX⟩, hx, ⟨y, putY⟩, hy, hput⟩ := h
    cases hput
    exact ih (hr.part hx) hy

/-- **The slots of a record are those that its schema asks for**, after any changes of a record that
can be come by, and so are those of every record inside. -/
theorem Reachable.represented (hr : Reachable set r) {cs : List Change}
    (hcs : Change.AllProper set cs r) {path : List Step} {inner : Record} {put : Record → Record}
    (h : Record.at? path (Change.applyAll cs r) = some (inner, put)) : inner.Represented set :=
  .of_wellFormed ((Change.reachable_applyAll hr hcs).at? h).wellFormed

/-- A transaction gets a speech and an input, which is then changed; a number as speech and a field
that is not there are refused. -/
def speechEdits : List Change :=
  [.setInt "version" 2, .set "clam_speech" (.bytes [0x68]), .set "clam_speech" (.int 3),
    .setInt "fee" 5, .vector "inputs" (· ++ [new Standard.clams .txIn]),
    .inside (.element "inputs" 0) (.setInt "sequence" 7)]

theorem represented_speechEdits :
    Change.AllProper Standard.clams speechEdits (new Standard.clams .transaction) ∧
      (Change.applyAll speechEdits (new Standard.clams .transaction)).serialize.length = 57 ∧
      ∃ input put, Record.at? [.element "inputs" 0]
        (Change.applyAll speechEdits (new Standard.clams .transaction)) = some (input, put) ∧
          input.int? "sequence" = some 7 ∧ input.Represented Standard.clams := by
  have hcs : Change.AllProper Standard.clams speechEdits (new Standard.clams .transaction) := by
    refine ⟨trivial, by simp [Change.Proper, FieldValue.parts],
      by simp [Change.Proper, FieldValue.parts], trivial, ?_, fun _ _ _ => trivial, trivial⟩
    intro rs put hrs x hx
    rcases List.mem_append.1 hx with hx | hx
    · exact .inl hx
    · obtain rfl := List.mem_singleton.1 hx
      exact .inr ⟨.new .txIn, _, rfl, rfl⟩
  have h : Record.at? [.element "inputs" 0]
    (Change.applyAll speechEdits (new Standard.clams .transaction)) = some (_, _) := rfl
  exact ⟨hcs, by decide, _, _, h, rfl, (Reachable.new .transaction).represented hcs h⟩

end Record

end CoinScript
