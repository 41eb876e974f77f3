import Mathlib.Data.Nat.Log
import Mathlib.Data.Set.Function
import CoinScript.Block

/-!
Merkle trees over as many leaves.

The nodes of a level are told by their places: a node joins the two nodes below it, and the last of
an odd level, which has one node below it, joins that with itself. Two trees of the same size join
their nodes in the same pairs, so trees with one root have the same leaves, unless two of the byte
strings that are hashed in them have the same digest.
-/

namespace CoinScript.Merkle

variable {α : Type} {combine : α → α → α} {nodes nodes' : List α} {height : Nat}

/-! ### Levels -/

lemma length_level (combine : α → α → α) (nodes : List α) :
    (level combine nodes).length = (nodes.length + 1) / 2 := by
  induction nodes using level.induct with
  | case1 a b rest ih =>
    simp only [level, List.length_cons, ih]
    omega
  | case2 a => simp [level]
  | case3 => simp [level]

def nodeAt? (combine : α → α → α) (leaves : List α) : (height place : Nat) → Option α
  | 0, place => leaves[place]?
  | height + 1, place =>
    (nodeAt? combine leaves height (2 * place)).map fun left =>
      combine left ((nodeAt? combine leaves height (2 * place + 1)).getD left)

lemma level_getElem? (combine : α → α → α) (nodes : List α) (place : Nat) :
    (level combine nodes)[place]? =
      nodes[2 * place]?.map fun left => combine left (nodes[2 * place + 1]?.getD left) := by
  induction nodes using level.induct generalizing place with
  | case1 a b rest ih =>
    cases place with
    | zero => rfl
    | succ place => simp [level, ih, Nat.mul_add]
  | case2 a => cases place <;> simp [level, Nat.mul_add]
  | case3 => simp [level]

lemma iterate_level_getElem? (combine : α → α → α) (leaves : List α) (height place : Nat) :
    ((level combine)^[height] leaves)[place]? = nodeAt? combine leaves height place := by
  induction height generalizing place with
  | zero => rfl
  | succ height ih => rw [Function.iterate_succ_apply', level_getElem?, ih, ih, nodeAt?]

/-! ### The root -/

lemma clog_length_level (combine : α → α → α) (a b : α) (rest : List α) :
    Nat.clog 2 (a :: b :: rest).length =
      Nat.clog 2 (level combine (a :: b :: rest)).length + 1 := by
  rw [length_level]
  exact Nat.clog_of_two_le Nat.one_lt_two (by simp)

lemma exists_climb (combine : α → α → α) (hnodes : nodes ≠ [])
    (hheight : Nat.clog 2 nodes.length ≤ height) : ∃ root, climb combine height nodes = some root ∧
      (level combine)^[Nat.clog 2 nodes.length] nodes = [root] := by
  induction height generalizing nodes with
  | zero =>
    match nodes with
    | [a] => exact ⟨a, rfl, by simp⟩
    | a :: b :: rest =>
      rw [clog_length_level combine] at hheight
      omega
  | succ height ih =>
    match nodes with
    | [a] => exact ⟨a, rfl, by simp⟩
    | a :: b :: rest =>
      rw [clog_length_level combine, Function.iterate_succ_apply] at *
      exact ih (by simp [level]) (by omega)

theorem exists_root? (combine : α → α → α) (hnodes : nodes ≠ []) :
    ∃ root, root? combine nodes = some root ∧
      (level combine)^[Nat.clog 2 nodes.length] nodes = [root] ∧
      nodeAt? combine nodes (Nat.clog 2 nodes.length) 0 = some root := by
  have hheight : Nat.clog 2 nodes.length ≤ nodes.length :=
    Nat.clog_le_of_le_pow Nat.lt_two_pow_self.le
  obtain ⟨root, hroot, hlast⟩ := exists_climb combine hnodes hheight
  refine ⟨root, hroot, hlast, ?_⟩
  rw [← iterate_level_getElem?, hlast]
  rfl

/-! ### Binding -/

/-- The nodes that are combined to a level, in pairs. -/
def pairs : List α → List (α × α)
  | a :: b :: rest => (a, b) :: pairs rest
  | [a] => [(a, a)]
  | [] => []

/-- The pairs that are combined on the way to the root. -/
def climbed (combine : α → α → α) : (height : Nat) → List α → List (α × α)
  | height + 1, a :: b :: rest =>
    pairs (a :: b :: rest) ++ climbed combine height (level combine (a :: b :: rest))
  | _, _ => []

/-- No pair of some has the same combination as another pair of others. -/
def Parts (combine : α → α → α) (ps qs : List (α × α)) : Prop :=
  ∀ p ∈ ps, ∀ q ∈ qs, combine p.1 p.2 = combine q.1 q.2 → p = q

lemma level_inj (hparts : Parts combine (pairs nodes) (pairs nodes'))
    (hlength : nodes.length = nodes'.length)
    (h : level combine nodes = level combine nodes') : nodes = nodes' := by
  induction nodes using pairs.induct generalizing nodes' with
  | case1 a b rest ih =>
    match nodes' with
    | c :: d :: rest' =>
      obtain ⟨hhead, htail⟩ := List.cons.inj h
      have hpair : (a, b) = (c, d) :=
        hparts (a, b) List.mem_cons_self (c, d) List.mem_cons_self hhead
      obtain ⟨rfl, rfl⟩ := Prod.mk.inj hpair
      have hrest : rest = rest' := by
        refine ih (fun p hp q hq => ?_) (by simpa using hlength) htail
        exact hparts p (List.mem_cons_of_mem _ hp) q (List.mem_cons_of_mem _ hq)
      rw [hrest]
  | case2 a =>
    match nodes' with
    | [c] =>
      -- a node that is left over is combined with itself
      have hpair := hparts (a, a) (by simp [pairs]) (c, c) (by simp [pairs]) (List.cons.inj h).1
      rw [(Prod.mk.inj hpair).1]
  | case3 => exact (List.length_eq_zero_iff.1 hlength.symm).symm

/-- **Trees of one size with one root** have the same leaves. -/
theorem climb_inj (hparts : Parts combine (climbed combine height nodes)
      (climbed combine height nodes')) (hlength : nodes.length = nodes'.length)
    (hsome : (climb combine height nodes).isSome = true)
    (h : climb combine height nodes = climb combine height nodes') : nodes = nodes' := by
  induction height generalizing nodes nodes' with
  | zero =>
    match nodes, nodes' with
    | [a], [c] => exact congrArg (fun x => [x]) (Option.some.inj h)
    | a :: b :: rest, _ => cases hsome
  | succ height ih =>
    match nodes, nodes' with
    | [a], [c] => exact congrArg (fun x => [x]) (Option.some.inj h)
    | a :: b :: rest, c :: d :: rest' =>
      have hlevels : level combine (a :: b :: rest) = level combine (c :: d :: rest') := by
        refine ih (fun p hp q hq => ?_) ?_ hsome h
        · exact hparts p (List.mem_append_right _ hp) q (List.mem_append_right _ hq)
        · rw [length_level, length_level, hlength]
      refine level_inj (fun p hp q hq => ?_) hlength hlevels
      exact hparts p (List.mem_append_left _ hp) q (List.mem_append_left _ hq)

/-! ### Roots of names -/

def joined (p : Hash256 × Hash256) : Bytes := p.1.bytes ++ p.2.bytes

lemma joined_inj {p q : Hash256 × Hash256} (h : joined p = joined q) : p = q := by
  obtain ⟨hleft, hright⟩ := List.append_inj h (p.1.size.trans q.1.size.symm)
  rcases p with ⟨⟨_, _⟩, ⟨_, _⟩⟩
  rcases q with ⟨⟨_, _⟩, ⟨_, _⟩⟩
  cases hleft
  cases hright
  rfl

/-- All that is hashed in the tree over some names. -/
def hashed (txids : List Hash256) : List Bytes := (climbed join txids.length txids).map joined

lemma length_of_mem_hashed {txids : List Hash256} {b : Bytes} (h : b ∈ hashed txids) :
    b.length = 64 := by
  obtain ⟨p, -, rfl⟩ := List.mem_map.1 h
  rw [joined, List.length_append, p.1.size, p.2.size]

/-- Different strings among those hashed in two trees have different digests. This cannot be asked
of all strings of sixty-four bytes, as there are fewer digests than strings. -/
def CollisionFree (txids txids' : List Hash256) : Prop :=
  Set.InjOn doubleSha256 {b | b ∈ hashed txids ∨ b ∈ hashed txids'}

/-- **A root binds the names** among lists of the same length. -/
theorem rootOf_inj {txids txids' : List Hash256} (hfree : CollisionFree txids txids')
    (hlength : txids.length = txids'.length) (h : rootOf txids = rootOf txids') :
    txids = txids' := by
  by_cases hnone : txids = []
  · rw [hnone, List.length_nil] at hlength
    rw [hnone, List.length_eq_zero_iff.1 hlength.symm]
  · have hnone' : txids' ≠ [] := by
      rintro rfl
      exact hnone (List.length_eq_zero_iff.1 hlength)
    obtain ⟨root, hroot, -⟩ := exists_root? join hnone
    obtain ⟨root', hroot', -⟩ := exists_root? join hnone'
    have hsame : root = root' := by
      unfold rootOf at h
      rw [hroot, hroot'] at h
      exact Except.ok.inj h
    have hclimb : climb join txids.length txids = some root := hroot
    have hclimb' : climb join txids.length txids' = some root' := hlength ▸ hroot'
    refine climb_inj (fun p hp q hq hjoin => joined_inj ?_) hlength ?_
      (hclimb.trans (hsame ▸ hclimb'.symm))
    · rw [hlength] at hq
      exact hfree (.inl (List.mem_map_of_mem hp)) (.inr (List.mem_map_of_mem hq)) hjoin
    · rw [hclimb]
      rfl

end CoinScript.Merkle
