import CoinScript.Proofs.Wire.Exact

/-!
Reading when bytes are cut off or added at the end.

A steady read looks no further than it goes, so added bytes change nothing. Where bytes are cut
off, it either gives what it gave or fails for want of input, and the fault says how many bytes
there were. Steady reads are closed under sequence; those of bytes and numbers are steady.
-/

namespace CoinScript

/-! ### Ends -/

namespace Cursor

variable {c c' d : Cursor} {t : Bytes}

/-- The same place where more bytes follow at the end. -/
def extend (c : Cursor) (t : Bytes) : Cursor := ⟨c.offset, c.rest ++ t⟩

def stop (c : Cursor) : Nat := c.offset + c.remaining

@[simp] lemma remaining_extend : (c.extend t).remaining = c.remaining + t.length :=
  List.length_append

lemma Spans.extend {b : Bytes} (h : c.Spans b c') : (c.extend t).Spans b (c'.extend t) :=
  ⟨by simp [Cursor.extend, h.1], h.2⟩

lemma Spans.stop_eq {b : Bytes} (h : c.Spans b c') : c'.stop = c.stop := by
  simp only [stop, remaining, h.1, h.2, List.length_append]
  omega

lemma Spans.exists_extend {b : Bytes} (h : (c.extend t).Spans b d) (hb : b.length ≤ c.remaining) :
    ∃ c', d = c'.extend t ∧ c.Spans b c' := by
  obtain ⟨hrest, hoffset⟩ := h
  obtain ⟨rest, hc⟩ : b <+: c.rest :=
    List.prefix_of_prefix_length_le ⟨d.rest, hrest.symm⟩ (List.prefix_append _ _) hb
  refine ⟨⟨d.offset, rest⟩, ?_, hc.symm, hoffset⟩
  have hd : d.rest = rest ++ t := by
    rw [Cursor.extend, ← hc, List.append_assoc] at hrest
    exact (List.append_cancel_left hrest).symm
  rw [Cursor.extend, ← hd]

/-- A fault for want of input at a place before the end: more bytes are needed than there are. -/
inductive Short (c : Cursor) : Fault → Prop
  | mk {offset needed available : Nat} (stop_eq : offset + available = c.stop)
      (lt : available < needed) : c.Short (.truncated offset needed available)

lemma Short.of_stop_eq {e : Fault} (h : c'.Short e) (hstop : c'.stop = c.stop) : c.Short e := by
  cases h with
  | mk stop_eq lt => exact .mk (stop_eq.trans hstop) lt

end Cursor

/-! ### Steady reads -/

namespace Read

variable {α β : Type} {m : Read α} {c c' d : Cursor} {t : Bytes}

lemma bind_eq_error {f : α → Read β} {e : Fault} : (m >>= f) c = .error e ↔
    m c = .error e ∨ ∃ a d, m c = .ok (a, d) ∧ f a d = .error e := by
  change (m c >>= fun p => f p.1 p.2) = _ ↔ _
  rcases m c with e' | ⟨a, d⟩ <;> simp [bind, Except.bind]

/-- A read that looks at no more bytes than it passes over. -/
structure Steady (m : Read α) : Prop where
  /-- No byte is lost. -/
  stop : ∀ {c a c'}, m c = .ok (a, c') → c'.stop = c.stop
  /-- Bytes behind those that are read do not matter. -/
  extend : ∀ {c a c'} (t : Bytes), m c = .ok (a, c') → m (c.extend t) = .ok (a, c'.extend t)
  /-- Without the last bytes the same is read, or the input is too short. -/
  cut : ∀ {c t a d}, m (c.extend t) = .ok (a, d) →
    (∃ c', d = c'.extend t ∧ m c = .ok (a, c')) ∨ ∃ e, m c = .error e ∧ c.Short e

/-- A read that accepts a value exactly where its bytes stand is steady, if it asks for more input
wherever there is too little. -/
lemma Steady.of_spans {P : α → Prop} {w : α → Bytes}
    (exact : ∀ {c a c'}, m c = .ok (a, c') ↔ P a ∧ c.Spans (w a) c')
    (short : ∀ {c t a d}, m (c.extend t) = .ok (a, d) → c.remaining < (w a).length →
      ∃ e, m c = .error e ∧ c.Short e) : Steady m where
  stop h := (exact.1 h).2.stop_eq
  extend t h := exact.2 ⟨(exact.1 h).1, (exact.1 h).2.extend⟩
  cut {c t a d} h := by
    rcases Nat.lt_or_ge c.remaining (w a).length with hlt | hle
    · exact .inr (short h hlt)
    · obtain ⟨hp, hs⟩ := exact.1 h
      obtain ⟨c', rfl, hs'⟩ := hs.exists_extend hle
      exact .inl ⟨c', rfl, exact.2 ⟨hp, hs'⟩⟩

lemma steady_pure (a : α) : Steady (pure a : Read α) := by
  refine .of_spans (P := (· = a)) (w := fun _ => []) (fun {c b c'} => ?_) nofun
  rw [pure_eq_ok, Cursor.spans_nil]

lemma steady_throw {m : Read α} (h : ∀ {c a c'}, m c ≠ .ok (a, c')) : Steady m where
  stop hok := absurd hok h
  extend _ hok := absurd hok h
  cut hok := absurd hok h

lemma Steady.bind {f : α → Read β} (hm : Steady m) (hf : ∀ a, Steady (f a)) :
    Steady (m >>= f) where
  stop h := by
    obtain ⟨a, d, ha, hb⟩ := bind_eq_ok.1 h
    rw [(hf a).stop hb, hm.stop ha]
  extend t h := by
    obtain ⟨a, d, ha, hb⟩ := bind_eq_ok.1 h
    exact bind_eq_ok.2 ⟨a, d.extend t, hm.extend t ha, (hf a).extend t hb⟩
  cut h := by
    obtain ⟨a, d, ha, hb⟩ := bind_eq_ok.1 h
    rcases hm.cut ha with ⟨c₁, rfl, ha'⟩ | ⟨e, he, hshort⟩
    · rcases (hf a).cut hb with ⟨c₂, rfl, hb'⟩ | ⟨e, he, hshort⟩
      · exact .inl ⟨c₂, rfl, bind_eq_ok.2 ⟨a, c₁, ha', hb'⟩⟩
      · exact .inr ⟨e, bind_eq_error.2 (.inr ⟨a, c₁, ha', he⟩), hshort.of_stop_eq (hm.stop ha')⟩
    · exact .inr ⟨e, bind_eq_error.2 (.inl he), hshort⟩

lemma Steady.map {f : α → β} (hm : Steady m) : Steady (f <$> m) := by
  rw [map_eq_pure_bind]
  exact hm.bind fun a => steady_pure (f a)

/-! ### Bytes and numbers -/

lemma steady_bytes (n : Nat) : Steady (bytes n) := by
  refine .of_spans bytes_eq_ok fun {c t b d} h hlt => ?_
  obtain ⟨rfl, -⟩ := bytes_eq_ok.1 h
  refine ⟨.truncated c.offset b.length c.remaining, if_pos ?_, .mk rfl hlt⟩
  exact Nat.lt_of_le_of_lt (List.length_take_le' _ _) hlt

lemma steady_uint (width : Nat) : Steady (uint width) :=
  (steady_bytes width).bind fun _ => steady_pure _

lemma steady_int (width : Nat) : Steady (int width) :=
  (steady_bytes width).bind fun _ => steady_pure _

lemma steady_hash : Steady hash := by
  refine .of_spans (P := fun _ => True) (w := Hash256.bytes) (fun {c h d} => ?_)
    fun {c t h d} _ hlt => ?_
  · rw [hash_eq_ok, true_and]
  · rw [h.size] at hlt
    refine ⟨.truncated c.offset 32 c.remaining, ?_, .mk rfl hlt⟩
    have hne : (c.rest.take 32).length ≠ 32 :=
      Nat.ne_of_lt (Nat.lt_of_le_of_lt (List.length_take_le' _ _) hlt)
    simp only [hash, Hash256.ofBytes?, hne, dif_neg, not_false_iff]

lemma steady_marked {w least : Nat} {e : Nat → Cursor → EncodingFault} :
    Steady (do
      let n ← uint w
      if n < least then throw (.encoding (e n (← get)))
      return n) := by
  refine (steady_uint w).bind fun n => ?_
  by_cases hn : n < least
  · refine steady_throw fun h => ?_
    rw [if_pos hn] at h
    obtain ⟨_, _, -, h⟩ := bind_eq_ok.1 h
    obtain ⟨_, _, h, -⟩ := bind_eq_ok.1 h
    exact throw_ne_ok h
  · rw [if_neg hn]
    exact steady_pure n

lemma steady_compactSize : Steady compactSize := by
  refine (steady_uint 1).bind fun first => ?_
  by_cases hfd : first < 0xfd
  · rw [if_pos hfd]
    exact steady_pure first
  · rw [if_neg hfd]
    exact steady_marked

lemma steady_varBytes : Steady varBytes :=
  steady_compactSize.bind fun _ => steady_bytes _

end Read

end CoinScript
