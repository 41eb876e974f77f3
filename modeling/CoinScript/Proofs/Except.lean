import Mathlib.Tactic.Common

/-!
Computations that end in a value or in the first fault.

A sequence of two ends well exactly if both do, and its fault is that of the first that has one.
A computation may also change a state where it stands: then a fault ends it half-way, and what was
changed until then stays changed.
-/

namespace CoinScript

namespace Except

variable {ε α β : Type} {x : Except ε α} {f g : α → Except ε β} {b : β} {e : ε}

@[simp] lemma ok_bind (a : α) (f : α → Except ε β) : (Except.ok a >>= f) = f a := rfl

@[simp] lemma error_bind (e : ε) (f : α → Except ε β) : (Except.error e >>= f) = .error e := rfl

@[simp] lemma map_ok (f : α → β) (a : α) : f <$> (Except.ok a : Except ε α) = .ok (f a) := rfl

lemma bind_eq_ok : x >>= f = .ok b ↔ ∃ a, x = .ok a ∧ f a = .ok b := by
  cases x <;> simp

lemma bind_eq_error : x >>= f = .error e ↔ x = .error e ∨ ∃ a, x = .ok a ∧ f a = .error e := by
  cases x <;> simp

lemma exists_bind_eq_ok : (∃ b, x >>= f = .ok b) ↔ ∃ a, x = .ok a ∧ ∃ b, f a = .ok b := by
  cases x <;> simp

lemma exists_check_eq_ok {c : Prop} [Decidable c] {k : Unit → Except ε β} :
    (∃ b, (if c then throw e >>= k else k ()) = .ok b) ↔ ¬ c ∧ ∃ b, k () = .ok b := by
  split
  · rename_i hc
    refine iff_of_false ?_ fun h => h.1 hc
    rintro ⟨_, ⟨⟩⟩
  · rename_i hc
    simp [hc]

lemma toOption_eq_some {a : α} : x.toOption = some a ↔ x = .ok a := by
  cases x <;> simp [Except.toOption]

lemma exists_of_isOk (h : x.isOk = true) : ∃ a, x = .ok a := by
  cases x with
  | error e => cases h
  | ok a => exact ⟨a, rfl⟩

lemma bind_congr_ok (h : ∀ a, x = .ok a → f a = g a) : x >>= f = x >>= g := by
  cases x with
  | error e => rfl
  | ok a => exact h a rfl

lemma mapM_eq_ok {as : List α} {f : α → Except ε β} {g : α → β}
    (hf : ∀ a ∈ as, f a = .ok (g a)) : as.mapM f = .ok (as.map g) := by
  induction as with
  | nil => rfl
  | cons a as ih =>
    have hrest := ih fun b hb => hf b (List.mem_cons_of_mem _ hb)
    rw [List.mapM_cons, hf a List.mem_cons_self, hrest]
    rfl

lemma mapM_map_eq_ok {γ : Type} {cs : List γ} {g : γ → α} {h : γ → β}
    (hf : ∀ c, f (g c) = .ok (h c)) : (cs.map g).mapM f = .ok (cs.map h) := by
  rw [List.mapM_map]
  exact mapM_eq_ok fun c _ => hf c

/-- **The order of steps** does not matter for how they end well, if it does not for two steps
that may stand next to each other. -/
lemma foldlM_eq_ok_of_perm {f : β → α → Except ε β} {P : β → Prop} {R : α → α → Prop}
    {as as' : List α} {b b' : β} (hstep : ∀ a b b', P b → f b a = .ok b' → P b')
    (hsymm : ∀ a a', R a a' → R a' a)
    (hswap : ∀ a a' b b', R a a' → P b → (f b a >>= (f · a')) = .ok b' →
      (f b a' >>= (f · a)) = .ok b')
    (h : as.Perm as') (hR : as.Pairwise R) (hb : P b) (hok : as.foldlM f b = .ok b') :
    as'.foldlM f b = .ok b' := by
  -- it is enough to let two neighbours change places
  induction h generalizing b with
  | nil => exact hok
  | cons a _ ih =>
    rw [List.foldlM_cons, bind_eq_ok] at hok ⊢
    obtain ⟨b₁, hfirst, hrest⟩ := hok
    exact ⟨b₁, hfirst, ih (List.pairwise_cons.1 hR).2 (hstep a b b₁ hb hfirst) hrest⟩
  | swap a a' as =>
    have hrel : R a' a := (List.pairwise_cons.1 hR).1 a List.mem_cons_self
    simp only [List.foldlM_cons, bind_eq_ok] at hok ⊢
    obtain ⟨b₁, hfirst, b₂, hsecond, hrest⟩ := hok
    have htwo : (f b a >>= (f · a')) = .ok b₂ :=
      hswap a' a b b₂ hrel hb (bind_eq_ok.2 ⟨b₁, hfirst, hsecond⟩)
    obtain ⟨c, hfirst', hsecond'⟩ := bind_eq_ok.1 htwo
    exact ⟨c, hfirst', b₂, hsecond', hrest⟩
  | trans h _ ih ih' =>
    exact ih' (h.pairwise hR fun {a a'} => hsymm a a') hb (ih hR hb hok)

end Except

/-- A computation on a state that it changes where it stands. -/
abbrev InPlace (ε σ α : Type) := ExceptT ε (StateM σ) α

namespace InPlace

variable {ε σ α β : Type} (s : σ)

def on (m : InPlace ε σ α) (s : σ) : Except ε α × σ := (ExceptT.run m).run s

@[simp] lemma on_pure (a : α) : (pure a : InPlace ε σ α).on s = (.ok a, s) := rfl

@[simp] lemma on_throw (e : ε) : (throw e : InPlace ε σ α).on s = (.error e, s) := rfl

@[simp] lemma on_modify (f : σ → σ) : (modify f : InPlace ε σ Unit).on s = (.ok (), f s) := rfl

@[simp] lemma on_get_bind (k : σ → InPlace ε σ α) : (get >>= k).on s = (k s).on s := rfl

@[simp] lemma on_modify_bind (f : σ → σ) (k : Unit → InPlace ε σ α) :
    (modify f >>= k).on s = (k ()).on (f s) := rfl

lemma on_ok_bind (b : β) (k : β → InPlace ε σ α) :
    (ofExcept (.ok b : Except ε β) >>= k).on s = (k b).on s := rfl

lemma on_error_bind (e : ε) (k : β → InPlace ε σ α) :
    (ofExcept (.error e : Except ε β) >>= k).on s = (.error e, s) := rfl

section

variable {s}

lemma on_bind (m : InPlace ε σ β) (k : β → InPlace ε σ α) : (m >>= k).on s =
    match m.on s with
    | (.ok b, t) => (k b).on t
    | (.error e, t) => (.error e, t) := by
  change (match m.on s with | (x, t) => (ExceptT.bindCont k x).run t) = _
  rcases m.on s with ⟨e | b, t⟩ <;> rfl

lemma on_tryCatch (m : InPlace ε σ α) (k : ε → InPlace ε σ α) : (tryCatch m k).on s =
    match m.on s with
    | (.ok a, t) => (.ok a, t)
    | (.error e, t) => (k e).on t := by
  change (match m.on s with
    | (x, t) => (match x with
      | .ok a => (pure (.ok a) : StateM σ (Except ε α))
      | .error e => k e).run t) = _
  rcases m.on s with ⟨e | a, t⟩ <;> rfl

end

end InPlace

end CoinScript
