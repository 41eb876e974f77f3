/-!
Merkle roots over any way of combining two nodes.

A level pairs neighbours, an odd last node with itself, until one node is left.
-/

namespace CoinScript.Merkle

variable {α : Type}

def level (combine : α → α → α) : List α → List α
  | a :: b :: rest => combine a b :: level combine rest
  | [a] => [combine a a]
  | [] => []

def climb (combine : α → α → α) : (height : Nat) → List α → Option α
  | _, [] => none
  | _, [a] => some a
  | 0, _ => none
  | height + 1, nodes => climb combine height (level combine nodes)

/-- The root of a list of leaves, which exists unless the list is empty. -/
def root? (combine : α → α → α) (leaves : List α) : Option α :=
  climb combine leaves.length leaves

end CoinScript.Merkle
