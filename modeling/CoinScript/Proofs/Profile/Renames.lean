import CoinScript.Profile
import CoinScript.Proofs.Except
import CoinScript.Proofs.Opcode.Handlers
import CoinScript.Proofs.Opcode.Renaming

/-!
The renames of a configuration, against the mapping that they are written as.

The key of an entry is looked up in the table that the entries before it have changed. So the
entries work as one mapping from opcodes to mnemonics exactly if no entry gives a mnemonic that is
the key of a later one; otherwise the later entry renames what the earlier one did. Entries that
do not meet in either order may come in any.
-/

namespace CoinScript

namespace OpcodeTable

/-- Every entry holds, its key taken for what it denotes in the standard table: the opcode is
called what the entry says, and the new mnemonic names it. -/
def Renamed (t : OpcodeTable) (es : List (String × String)) : Prop :=
  ∀ e ∈ es, ∀ op, standard.value? e.1 = some op →
    t.name op = Mnemonic.normalize e.2 ∧ t.value? e.2 = some op

end OpcodeTable

namespace ProfileConfig

open OpcodeTable

variable {c : ProfileConfig} {t t' u : OpcodeTable} {e : String × String}
  {es es' : List (String × String)} {d rs : List (Opcode × String)}

/-- No entry gives a mnemonic that is the key of a later one. -/
def Clear (es : List (String × String)) : Prop :=
  es.Pairwise fun a b => Mnemonic.normalize a.2 ≠ Mnemonic.normalize b.1

/-- What entries rename, the keys all looked up in one table. -/
def mapping (t : OpcodeTable) (es : List (String × String)) : List (Opcode × String) :=
  es.filterMap fun e => (t.value? e.1).map (·, e.2)

lemma mem_mapping {r : Opcode × String} :
    r ∈ mapping t es ↔ ∃ e ∈ es, t.value? e.1 = some r.1 ∧ e.2 = r.2 := by
  simp only [mapping, List.mem_filterMap, Option.map_eq_some_iff]
  refine exists_congr fun e => and_congr_right fun _ => ?_
  constructor
  · rintro ⟨op, hop, rfl⟩
    exact ⟨hop, rfl⟩
  · rintro ⟨hop, hname⟩
    exact ⟨r.1, hop, by rw [hname]⟩

lemma map_mapping {α : Type} (f : Option Opcode → String → α)
    (hkeys : ∀ e ∈ es, (t.value? e.1).isSome) :
    (mapping t es).map (fun r => f (some r.1) r.2) = es.map fun e => f (t.value? e.1) e.2 := by
  induction es with
  | nil => rfl
  | cons e es ih =>
    obtain ⟨op, hop⟩ := Option.isSome_iff_exists.1 (hkeys e List.mem_cons_self)
    have hrest := ih fun x hx => hkeys x (List.mem_cons_of_mem _ hx)
    simp only [mapping] at hrest
    simp [mapping, hop, hrest]

/-! ### One entry after another -/

lemma resolve_eq_ok {name : String} {op : Opcode} :
    c.resolve t name = .ok op ↔ t.value? name = some op := by
  unfold resolve
  cases t.value? name <;> simp

lemma rename_eq_ok :
    c.rename t e = .ok t' ↔ ∃ op, t.value? e.1 = some op ∧ t' = t.rename op e.2 := by
  unfold rename
  rw [Except.bind_eq_ok]
  refine exists_congr fun op => and_congr resolve_eq_ok ?_
  exact ⟨fun h => (Except.ok.inj h).symm, fun h => h ▸ rfl⟩

lemma renameAll_of_foldlM (h : es.foldlM c.rename t = .ok t') :
    ∃ rs, rs.map Prod.snd = es.map Prod.snd ∧ t' = t.renameAll rs := by
  induction es generalizing t with
  | nil =>
    cases h
    exact ⟨[], rfl, rfl⟩
  | cons e es ih =>
    rw [List.foldlM_cons, Except.bind_eq_ok] at h
    obtain ⟨t₁, he, h⟩ := h
    obtain ⟨op, -, rfl⟩ := rename_eq_ok.1 he
    obtain ⟨rs, hrs, rfl⟩ := ih h
    exact ⟨(op, e.2) :: rs, by rw [List.map_cons, List.map_cons, hrs], rfl⟩

lemma value?_renameAll {key : String} {op : Opcode} (hop : t.value? key = some op)
    (hgiven : ∀ r ∈ d, Mnemonic.normalize r.2 ≠ Mnemonic.normalize key)
    (hfresh : op ∉ d.map Prod.fst) : (t.renameAll d).value? key = some op := by
  rw [value?_eq_some] at hop ⊢
  refine ⟨resolve?_of_fresh (given?_eq_none.2 hgiven) (called?_eq_none.2 ?_) hop.1, hop.2⟩
  rintro r hr rfl
  exact hfresh (List.mem_map_of_mem hr)

/-- **Clear entries work as one mapping.** -/
lemma foldlM_rename_of_clear (hkeys : ∀ e ∈ es, (t.value? e.1).isSome)
    (hops : (d.map Prod.fst ++ (mapping t es).map Prod.fst).Nodup) (hclear : Clear es)
    (hdone : ∀ r ∈ d, ∀ e ∈ es, Mnemonic.normalize r.2 ≠ Mnemonic.normalize e.1) :
    es.foldlM c.rename (t.renameAll d) = .ok (t.renameAll (d ++ mapping t es)) := by
  induction es generalizing d with
  | nil => simp [mapping, pure, Except.pure]
  | cons e es ih =>
    obtain ⟨op, hop⟩ := Option.isSome_iff_exists.1 (hkeys e List.mem_cons_self)
    have hmapping : mapping t (e :: es) = (op, e.2) :: mapping t es := by simp [mapping, hop]
    obtain ⟨hnext, hclear⟩ := List.pairwise_cons.1 hclear
    rw [hmapping] at hops ⊢
    -- the opcode has not been renamed before, so its key still denotes it
    have hfresh : op ∉ d.map Prod.fst := by
      intro hmem
      exact (List.disjoint_of_nodup_append hops) hmem List.mem_cons_self
    have hvalue := value?_renameAll hop (fun r hr => hdone r hr e List.mem_cons_self) hfresh
    have hstep : (t.renameAll d).rename op e.2 = t.renameAll (d ++ [(op, e.2)]) := by
      rw [renameAll_append]
      rfl
    have happend : d ++ (op, e.2) :: mapping t es = d ++ [(op, e.2)] ++ mapping t es :=
      List.append_cons ..
    rw [List.foldlM_cons, rename_eq_ok.2 ⟨op, hvalue, rfl⟩, Except.ok_bind, hstep, happend]
    have hops' : ((d ++ [(op, e.2)]).map Prod.fst ++ (mapping t es).map Prod.fst).Nodup := by
      simpa using hops
    refine ih (fun x hx => hkeys x (List.mem_cons_of_mem _ hx)) hops' hclear ?_
    intro r hr x hx
    rcases List.mem_append.1 hr with hr | hr
    · exact hdone r hr x (List.mem_cons_of_mem _ hx)
    · rw [List.mem_singleton.1 hr]
      exact hnext x hx

lemma exists_first_of_not_clear (h : ¬ Clear es) : ∃ before b after a, es = before ++ b :: after ∧
    Clear before ∧ a ∈ before ∧ Mnemonic.normalize a.2 = Mnemonic.normalize b.1 := by
  induction es using List.reverseRecOn with
  | nil => exact absurd List.Pairwise.nil h
  | append_singleton es b ih =>
    by_cases hes : Clear es
    · have hmeets : ¬ ∀ a ∈ es, Mnemonic.normalize a.2 ≠ Mnemonic.normalize b.1 := by
        intro hb
        refine h (List.pairwise_append.2 ⟨hes, List.pairwise_singleton _ _, fun a ha x hx => ?_⟩)
        rw [List.mem_singleton.1 hx]
        exact hb a ha
      push Not at hmeets
      obtain ⟨a, ha, heq⟩ := hmeets
      exact ⟨es, b, [], a, rfl, hes, ha, heq⟩
    · obtain ⟨before, b', after, a, rfl, hrest⟩ := ih hes
      exact ⟨before, b', after ++ [b], a, by simp, hrest⟩

lemma name_renameAll_of_mem (t : OpcodeTable) (d : List (Opcode × String)) {op : Opcode}
    (hop : op ∈ rs.map Prod.fst) :
    ∃ s ∈ rs.map Prod.snd, (t.renameAll (d ++ rs)).name op = Mnemonic.normalize s := by
  cases hcalled : called? rs op with
  | none =>
    obtain ⟨r, hr, rfl⟩ := List.mem_map.1 hop
    exact absurd rfl (called?_eq_none.1 hcalled r hr)
  | some name =>
    obtain ⟨r, hr, rfl, rfl⟩ := exists_of_called? hcalled
    refine ⟨r.2, List.mem_map_of_mem hr, ?_⟩
    rw [name_eq, name?_renameAll, called?_append, hcalled, Option.some_or, Option.some_or,
      Option.getD_some]

section

variable (hkeys : ∀ e ∈ es, (t.value? e.1).isSome)
  (hops : (es.map fun e => t.value? e.1).Nodup)
  (hnames : (es.map fun e => Mnemonic.normalize e.2).Nodup)

include hkeys in
lemma map_fst_mapping : ((mapping t es).map Prod.fst).map some = es.map fun e => t.value? e.1 := by
  rw [List.map_map]
  exact map_mapping (fun op? _ => op?) hkeys

include hkeys hops in
lemma nodup_mapping : ((mapping t es).map Prod.fst).Nodup :=
  List.Nodup.of_map some (map_fst_mapping hkeys ▸ hops)

include hkeys hnames in
lemma nodup_names_mapping : ((mapping t es).map (Mnemonic.normalize ·.2)).Nodup := by
  rw [map_mapping (fun _ name => Mnemonic.normalize name) hkeys]
  exact hnames

include hkeys hops in
lemma foldlM_rename_eq_ok (hclear : Clear es) :
    es.foldlM c.rename t = .ok (t.renameAll (mapping t es)) :=
  foldlM_rename_of_clear (d := []) hkeys (by simpa using nodup_mapping hkeys hops) hclear
    (by simp)

include hkeys hops hnames in
/-- **An entry that meets an earlier one** takes the mnemonic of the earlier one away from its
opcode. -/
lemma not_renamed_of_not_clear (h : es.foldlM c.rename t = .ok t') (hclear : ¬ Clear es) :
    ∃ e ∈ es, ∃ op, t.value? e.1 = some op ∧ t'.name op ≠ Mnemonic.normalize e.2 := by
  obtain ⟨before, b, after, a, rfl, hbefore, ha, hmeet⟩ := exists_first_of_not_clear hclear
  have hmem : ∀ e ∈ before, e ∈ before ++ b :: after := fun e he => List.mem_append_left _ he
  have hkeys' : ∀ e ∈ before, (t.value? e.1).isSome := fun e he => hkeys e (hmem e he)
  rw [List.map_append] at hops hnames
  obtain ⟨hops', -, -⟩ := List.nodup_append.1 hops
  obtain ⟨hnames', -, hapart⟩ := List.nodup_append.1 hnames
  rw [List.foldlM_append, foldlM_rename_eq_ok hkeys' hops' hbefore, Except.ok_bind,
    List.foldlM_cons, Except.bind_eq_ok] at h
  obtain ⟨t₁, hb, h⟩ := h
  obtain ⟨op', hop', rfl⟩ := rename_eq_ok.1 hb
  obtain ⟨rs, hrs, rfl⟩ := renameAll_of_foldlM h
  -- the key of `b` denotes what `a` renamed
  obtain ⟨op, hop⟩ := Option.isSome_iff_exists.1 (hkeys' a ha)
  have hrename : (op, a.2) ∈ mapping t before := mem_mapping.2 ⟨a, ha, hop, rfl⟩
  have hgiven := given?_of_mem (nodup_names_mapping hkeys' hnames') hrename
  dsimp only at hgiven
  have hresolve := (value?_eq_some.1 hop').1
  rw [← hmeet, resolve?_of_given hgiven, Option.some.injEq] at hresolve
  subst hresolve
  refine ⟨a, hmem a ha, op, hop, ?_⟩
  have htable : ((t.renameAll (mapping t before)).rename op b.2).renameAll rs =
      t.renameAll (mapping t before ++ (op, b.2) :: rs) := by
    rw [renameAll_append]
    rfl
  have hmem' : op ∈ ((op, b.2) :: rs).map Prod.fst := List.mem_cons_self
  obtain ⟨s, hs, hname⟩ := name_renameAll_of_mem t (mapping t before) hmem'
  rw [htable, hname]
  rw [List.map_cons, hrs] at hs
  change s ∈ (b :: after).map Prod.snd at hs
  obtain ⟨x, hx, rfl⟩ := List.mem_map.1 hs
  have hearly : Mnemonic.normalize a.2 ∈ before.map fun e => Mnemonic.normalize e.2 :=
    List.mem_map.2 ⟨a, ha, rfl⟩
  have hlate : Mnemonic.normalize x.2 ∈ (b :: after).map fun e => Mnemonic.normalize e.2 :=
    List.mem_map.2 ⟨x, hx, rfl⟩
  exact (hapart _ hearly _ hlate).symm

end

/-! ### The rest of the table -/

lemma override_eq_ok : c.override t e = .ok t' ↔
    ∃ op h, t.value? e.1 = some op ∧ Handler.ofName? e.2 = some h ∧ t' = t.register op h := by
  unfold override
  simp only [Except.bind_eq_ok, resolve_eq_ok]
  refine exists_congr fun op => ?_
  cases Handler.ofName? e.2 with
  | none => simp [throw, throwThe, MonadExceptOf.throw]
  | some h => simp [pure, Except.pure, eq_comm]

def disable (c : ProfileConfig) (t : OpcodeTable) : Except Fault OpcodeTable :=
  match c.disabled? with
  | some names => t.setDisabled <$> names.mapM (c.resolve t)
  | none => .ok t

lemma opcodes_eq_ok : c.opcodes = .ok t' ↔ ∃ t, c.renames.foldlM c.rename timeLocked = .ok t ∧
    ∃ u, c.disable t = .ok u ∧ c.overrides.foldlM c.override u = .ok t' := by
  have hopcodes : c.opcodes = c.renames.foldlM c.rename timeLocked >>= fun t =>
      c.disable t >>= fun u => c.overrides.foldlM c.override u := by
    unfold opcodes disable
    refine bind_congr fun t => ?_
    cases c.disabled? with
    | none => rfl
    | some names =>
      dsimp only
      cases names.mapM (c.resolve t) <;> rfl
  rw [hopcodes]
  simp only [Except.bind_eq_ok]

lemma disable_eq_ok : c.disable t = .ok t' ↔
    (c.disabled? = none ∧ t' = t) ∨ ∃ names ops, c.disabled? = some names ∧
      names.mapM (c.resolve t) = .ok ops ∧ t' = t.setDisabled ops := by
  unfold disable
  cases c.disabled? with
  | none => simp [eq_comm]
  | some names =>
    cases hops : names.mapM (c.resolve t) with
    | error e => simp [hops]
    | ok ops => simp [hops, eq_comm]

/-! Tables that are alike stay so. -/

lemma resolve_congr (h : t.Alike u) : c.resolve t = c.resolve u := by
  funext name
  unfold resolve
  rw [h.value]

lemma disable_alike (h : t.Alike u) (ht : c.disable t = .ok t') :
    ∃ u', c.disable u = .ok u' ∧ t'.Alike u' := by
  rcases disable_eq_ok.1 ht with ⟨hnone, rfl⟩ | ⟨names, ops, hsome, hops, rfl⟩
  · exact ⟨u, disable_eq_ok.2 (.inl ⟨hnone, rfl⟩), h⟩
  · rw [resolve_congr h] at hops
    exact ⟨_, disable_eq_ok.2 (.inr ⟨names, ops, hsome, hops, rfl⟩), h.setDisabled ops⟩

lemma override_alike (h : t.Alike u) (ht : c.override t e = .ok t') :
    ∃ u', c.override u e = .ok u' ∧ t'.Alike u' := by
  obtain ⟨op, handler, hop, hhandler, rfl⟩ := override_eq_ok.1 ht
  rw [h.value] at hop
  exact ⟨_, override_eq_ok.2 ⟨op, handler, hop, hhandler, rfl⟩, h.register op handler⟩

lemma foldlM_override_alike (h : t.Alike u) (ht : es.foldlM c.override t = .ok t') :
    ∃ u', es.foldlM c.override u = .ok u' ∧ t'.Alike u' := by
  induction es generalizing t u with
  | nil =>
    cases ht
    exact ⟨u, rfl, h⟩
  | cons e es ih =>
    rw [List.foldlM_cons, Except.bind_eq_ok] at ht
    obtain ⟨t₁, he, ht⟩ := ht
    obtain ⟨u₁, hu, hu₁⟩ := override_alike h he
    obtain ⟨u', hu', halike⟩ := ih hu₁ ht
    exact ⟨u', by rw [List.foldlM_cons, hu, Except.ok_bind, hu'], halike⟩

/-! Mnemonics are not touched any more. -/

lemma foldlM_override_names (h : es.foldlM c.override t = .ok t') :
    t'.name = t.name ∧ t'.value? = t.value? := by
  induction es generalizing t with
  | nil =>
    cases h
    exact ⟨rfl, rfl⟩
  | cons e es ih =>
    rw [List.foldlM_cons, Except.bind_eq_ok] at h
    obtain ⟨t₁, he, h⟩ := h
    obtain ⟨op, handler, -, -, rfl⟩ := override_eq_ok.1 he
    simpa using ih h

lemma disable_names (h : c.disable t = .ok t') : t'.name = t.name ∧ t'.value? = t.value? := by
  rcases disable_eq_ok.1 h with ⟨-, rfl⟩ | ⟨names, ops, -, -, rfl⟩ <;> simp

lemma renames_of_opcodes (h : c.opcodes = .ok t') : ∃ t,
    c.renames.foldlM c.rename timeLocked = .ok t ∧ t'.name = t.name ∧ t'.value? = t.value? := by
  obtain ⟨t, ht, u, hu, h⟩ := opcodes_eq_ok.1 h
  obtain ⟨hname, hvalue⟩ := disable_names hu
  obtain ⟨hname', hvalue'⟩ := foldlM_override_names h
  exact ⟨t, ht, hname'.trans hname, hvalue'.trans hvalue⟩

/-! Handlers are only those that a configuration can name. -/

lemma foldlM_override_registered (ht : t.Registered) (h : es.foldlM c.override t = .ok t') :
    t'.Registered := by
  induction es generalizing t with
  | nil =>
    cases h
    exact ht
  | cons e es ih =>
    rw [List.foldlM_cons, Except.bind_eq_ok] at h
    obtain ⟨t₁, he, h⟩ := h
    obtain ⟨op, handler, -, -, rfl⟩ := override_eq_ok.1 he
    exact ih (ht.register op handler) h

lemma registered_of_opcodes (h : c.opcodes = .ok t') : t'.Registered := by
  obtain ⟨t, ht, u, hu, h⟩ := opcodes_eq_ok.1 h
  obtain ⟨rs, -, rfl⟩ := renameAll_of_foldlM ht
  have hrenamed : (timeLocked.renameAll rs).Registered :=
    registered_timeLocked.congr overrides_renameAll
  refine foldlM_override_registered ?_ h
  rcases disable_eq_ok.1 hu with ⟨-, rfl⟩ | ⟨names, ops, -, -, rfl⟩
  · exact hrenamed
  · exact hrenamed.congr rfl

/-! ### Configurations -/

lemma ofConfig_eq_ok {p : Profile} : Profile.ofConfig c = .ok p ↔
    ∃ schemas opcodes, c.schemas = .ok schemas ∧ c.opcodes = .ok opcodes ∧
      p = ⟨c.name, schemas, opcodes⟩ := by
  unfold Profile.ofConfig
  simp only [Except.bind_eq_ok]
  simp [pure, Except.pure, eq_comm]

theorem registered_profile {p : Profile}
    (hp : p = .bitcoin ∨ p = .clams ∨ Profile.ofConfig c = .ok p) : p.opcodes.Registered := by
  rcases hp with rfl | rfl | h
  · exact registered_timeLocked
  · exact registered_timeLocked
  · obtain ⟨schemas, opcodes, -, hopcodes, rfl⟩ := ofConfig_eq_ok.1 h
    exact registered_of_opcodes hopcodes

lemma value?_timeLocked : timeLocked.value? = standard.value? := by
  rw [timeLocked, value?_register, value?_register]

lemma name_timeLocked : timeLocked.name = standard.name := by
  rw [timeLocked, name_register, name_register]

section

variable (hkeys : ∀ e ∈ es, (timeLocked.value? e.1).isSome)
  (hops : (es.map fun e => timeLocked.value? e.1).Nodup)
  (hnames : (es.map fun e => Mnemonic.normalize e.2).Nodup)

include hkeys hops hnames in
lemma renamed_mapping (hbare : ∀ e ∈ es, ∀ op, timeLocked.value? e.1 = some op →
      ¬ (Mnemonic.isBare e.2 = true ∧ op.isNumericPush = true)) :
    (timeLocked.renameAll (mapping timeLocked es)).Renamed es := by
  intro e he op hop
  rw [← value?_timeLocked] at hop
  have hrename : (op, e.2) ∈ mapping timeLocked es := mem_mapping.2 ⟨e, he, hop, rfl⟩
  have hcalled := called?_of_mem (nodup_mapping hkeys hops) hrename
  have hgiven := given?_of_mem (nodup_names_mapping hkeys hnames) hrename
  dsimp only at hcalled hgiven
  refine ⟨?_, value?_eq_some.2 ⟨resolve?_of_given hgiven, hbare e he op hop⟩⟩
  rw [name_eq, name?_renameAll, hcalled, Option.some_or, Option.getD_some]

end

lemma Clear.perm (hes : Clear es) (hreverse : Clear es.reverse) (h : es.Perm es') : Clear es' := by
  have hboth : es.Pairwise fun a b => Mnemonic.normalize a.2 ≠ Mnemonic.normalize b.1 ∧
      Mnemonic.normalize b.2 ≠ Mnemonic.normalize a.1 :=
    List.Pairwise.and hes (List.pairwise_reverse.1 hreverse)
  exact (h.pairwise hboth fun {a b} hab => ⟨hab.2, hab.1⟩).imp fun hab => hab.1

lemma ofConfig_perm {p : Profile} (h : Profile.ofConfig c = .ok p)
    (hkeys : ∀ e ∈ c.renames, (timeLocked.value? e.1).isSome)
    (hops : (c.renames.map fun e => timeLocked.value? e.1).Nodup)
    (hnames : (c.renames.map fun e => Mnemonic.normalize e.2).Nodup) (hclear : Clear c.renames)
    (hreverse : Clear c.renames.reverse) (hperm : c.renames.Perm es) :
    ∃ p', Profile.ofConfig { c with renames := es } = .ok p' ∧ p'.schemas = p.schemas ∧
      p.opcodes.Alike p'.opcodes := by
  obtain ⟨schemas, opcodes, hschemas, hopcodes, rfl⟩ := ofConfig_eq_ok.1 h
  obtain ⟨t, ht, u, hu, hopcodes⟩ := opcodes_eq_ok.1 hopcodes
  obtain rfl := Except.ok.inj (ht.symm.trans (foldlM_rename_eq_ok hkeys hops hclear))
  have hkeys' : ∀ e ∈ es, (timeLocked.value? e.1).isSome := fun e he => hkeys e (hperm.mem_iff.2 he)
  have hkeysPerm := hperm.map fun e : String × String => timeLocked.value? e.1
  have hops' := hkeysPerm.nodup_iff.1 hops
  have hrenames : es.foldlM (rename { c with renames := es }) timeLocked =
      .ok (timeLocked.renameAll (mapping timeLocked es)) :=
    foldlM_rename_eq_ok hkeys' hops' (hclear.perm hreverse hperm)
  have hmapping : (mapping timeLocked c.renames).Perm (mapping timeLocked es) := hperm.filterMap _
  have halike := renameAll_perm (t := timeLocked) hmapping (nodup_mapping hkeys hops)
    (nodup_names_mapping hkeys hnames)
  obtain ⟨u', hu', halike⟩ := disable_alike halike hu
  obtain ⟨opcodes', hopcodes', halike⟩ := foldlM_override_alike halike hopcodes
  -- the rest of the configuration is the same
  have hdisable : disable { c with renames := es } = c.disable := rfl
  have hoverride : override { c with renames := es } = c.override := rfl
  have hconfig : ProfileConfig.opcodes { c with renames := es } = .ok opcodes' := by
    refine opcodes_eq_ok.2 ⟨_, hrenames, u', ?_, ?_⟩
    · rw [hdisable, hu']
    · rw [hoverride, hopcodes']
  exact ⟨_, ofConfig_eq_ok.2 ⟨schemas, opcodes', hschemas, hconfig, rfl⟩, rfl, halike⟩

/-- **Renames of a configuration as one mapping.** The keys denote different opcodes in the
standard table, and the new mnemonics differ. Then every entry holds exactly if none gives a
mnemonic that is the key of a later one, and none gives an opcode that pushes a number a mnemonic
that starts with a digit. Other opcodes keep their names if the entries are clear. And if no entry
gives a mnemonic that is the key of another, the entries are accepted in every order and lead to
the same network. -/
theorem renames_as_mapping {p : Profile} (h : Profile.ofConfig c = .ok p)
    (hkeys : ∀ e ∈ c.renames, (standard.value? e.1).isSome)
    (hops : (c.renames.map fun e => standard.value? e.1).Nodup)
    (hnames : (c.renames.map fun e => Mnemonic.normalize e.2).Nodup) :
    (p.opcodes.Renamed c.renames ↔ Clear c.renames ∧
      ∀ e ∈ c.renames, ∀ op, standard.value? e.1 = some op →
        ¬ (Mnemonic.isBare e.2 = true ∧ op.isNumericPush = true)) ∧
    (Clear c.renames → ∀ op, (∀ e ∈ c.renames, standard.value? e.1 ≠ some op) →
      p.opcodes.name op = standard.name op) ∧
    (Clear c.renames → Clear c.renames.reverse → ∀ es, c.renames.Perm es →
      ∃ p', Profile.ofConfig { c with renames := es } = .ok p' ∧ p'.schemas = p.schemas ∧
        p.opcodes.Alike p'.opcodes) := by
  rw [← value?_timeLocked] at hkeys hops ⊢
  have horder (hc : Clear c.renames) (hreverse : Clear c.renames.reverse)
      (es : List (String × String)) (hperm : c.renames.Perm es) :=
    ofConfig_perm h hkeys hops hnames hc hreverse hperm
  obtain ⟨schemas, opcodes, hschemas, hopcodes, rfl⟩ := ofConfig_eq_ok.1 h
  obtain ⟨t, ht, hname, hvalue⟩ := renames_of_opcodes hopcodes
  have hclear (hc : Clear c.renames) : t = timeLocked.renameAll (mapping timeLocked c.renames) :=
    Except.ok.inj (ht.symm.trans (foldlM_rename_eq_ok hkeys hops hc))
  refine ⟨⟨fun hrenamed => ⟨?_, ?_⟩, ?_⟩, ?_, horder⟩
  · by_contra hmeet
    obtain ⟨e, he, op, hop, hne⟩ := not_renamed_of_not_clear hkeys hops hnames ht hmeet
    rw [value?_timeLocked] at hop
    exact hne (hname ▸ (hrenamed e he op hop).1)
  · intro e he op hop
    rw [value?_timeLocked] at hop
    exact (value?_eq_some.1 (hrenamed e he op hop).2).2
  · rintro ⟨hc, hbare⟩
    have hrenamed := renamed_mapping hkeys hops hnames hbare
    rw [← hclear hc] at hrenamed
    intro e he op hop
    rw [hname, hvalue]
    exact hrenamed e he op hop
  · intro hc op hop
    have hcalled : called? (mapping timeLocked c.renames) op = none := by
      refine called?_eq_none.2 fun r hr => ?_
      rintro rfl
      obtain ⟨e, he, hvalue, -⟩ := mem_mapping.1 hr
      exact hop e he hvalue
    change opcodes.name op = _
    rw [hname, hclear hc, ← name_timeLocked, name_eq, name?_renameAll, hcalled, Option.none_or]
    rfl

/-- Addition gets a new mnemonic and leaves its own to subtraction. -/
def chainConfig : ProfileConfig where
  renames := [("OP_ADD", "OP_PLUS"), ("OP_SUB", "OP_ADD")]

def apartConfig : ProfileConfig where
  renames := [("OP_ADD", "OP_PLUS"), ("OP_SUB", "OP_MINUS")]

instance : Decidable (Clear es) := inferInstanceAs (Decidable (es.Pairwise _))

theorem renames_as_mapping_chain : ∃ p q q',
    Profile.ofConfig chainConfig = .ok p ∧ p.opcodes.Renamed chainConfig.renames ∧
      p.opcodes.name 0x76 = standard.name 0x76 ∧
    Profile.ofConfig apartConfig = .ok q ∧
      Profile.ofConfig { apartConfig with renames := apartConfig.renames.reverse } = .ok q' ∧
      q.opcodes.Alike q'.opcodes := by
  obtain ⟨p, hp⟩ := Except.exists_of_isOk (x := Profile.ofConfig chainConfig) (by decide +kernel)
  obtain ⟨q, hq⟩ := Except.exists_of_isOk (x := Profile.ofConfig apartConfig) (by decide +kernel)
  obtain ⟨hrenamed, hothers, -⟩ := renames_as_mapping hp (by decide +kernel) (by decide +kernel)
    (by decide +kernel)
  obtain ⟨-, -, horder⟩ := renames_as_mapping hq (by decide +kernel) (by decide +kernel)
    (by decide +kernel)
  have hclear : Clear chainConfig.renames := by decide +kernel
  have hbare : ∀ e ∈ chainConfig.renames, Mnemonic.isBare e.2 = false := by decide +kernel
  have hduplicate : ∀ e ∈ chainConfig.renames, standard.value? e.1 ≠ some 0x76 := by decide +kernel
  obtain ⟨q', hq', -, halike⟩ := horder (by decide +kernel) (by decide +kernel) _
    (List.reverse_perm _).symm
  refine ⟨p, q, q', hp, hrenamed.2 ⟨hclear, fun e he op _ h => ?_⟩, hothers hclear _ hduplicate,
    hq, hq', halike⟩
  rw [hbare e he] at h
  cases h.1

/-- Addition and subtraction under each other's mnemonic. -/
def swapConfig : ProfileConfig where
  renames := [("OP_ADD", "OP_SUB"), ("OP_SUB", "OP_ADD")]

/-- **Two mnemonics that are to be swapped are not.** The second entry renames addition, which has
the mnemonic of subtraction by then, back to what it was called; and both mnemonics name
addition. -/
theorem swap_not_renamed :
    (∀ e ∈ swapConfig.renames, (standard.value? e.1).isSome) ∧
    (swapConfig.renames.map fun e => standard.value? e.1) = [some 0x93, some 0x94] ∧
    (swapConfig.renames.map fun e => Mnemonic.normalize e.2) = ["OP_SUB", "OP_ADD"] ∧
    ∃ p, Profile.ofConfig swapConfig = .ok p ∧
      (p.opcodes.name 0x93, p.opcodes.name 0x94) = ("OP_ADD", "OP_SUB") ∧
      (p.opcodes.value? "OP_ADD", p.opcodes.value? "OP_SUB") = (some 0x93, some 0x93) := by
  refine ⟨by decide +kernel, by decide +kernel, by decide +kernel, ?_⟩
  have hread : (Profile.ofConfig swapConfig).toOption.map (fun p =>
      ((p.opcodes.name 0x93, p.opcodes.name 0x94),
        (p.opcodes.value? "OP_ADD", p.opcodes.value? "OP_SUB"))) =
      some (("OP_ADD", "OP_SUB"), (some 0x93, some 0x93)) := by decide +kernel
  obtain ⟨p, hp, hboth⟩ := Option.map_eq_some_iff.1 hread
  obtain ⟨hname, hvalue⟩ := Prod.mk.inj hboth
  exact ⟨p, Except.toOption_eq_some.1 hp, hname, hvalue⟩

end ProfileConfig

end CoinScript
