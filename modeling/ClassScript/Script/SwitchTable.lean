/-!
Jump tables.

Keys that lie close together become a table indexed by the key; keys far apart are compared
one by one in increasing order. Of two pairs with one key the first counts.
-/

namespace ClassScript

inductive SwitchTable where
  /-- Targets by `key - low`; a key without a pair has the default. -/
  | indexed (low high : Int32) (targets : List Nat)
  | chain (pairs : List (Int32 × Nat))
  deriving DecidableEq, Repr

namespace SwitchTable

/-- Drops every pair whose key is that of the pair before it. -/
def dedup : List (Int32 × Nat) → List (Int32 × Nat)
  | [] => []
  | p :: ps =>
    match dedup ps with
    | [] => [p]
    | q :: qs => if p.1 = q.1 then p :: qs else p :: q :: qs

/-- The pairs by increasing key, each key once. -/
def sorted (pairs : List (Int32 × Nat)) : List (Int32 × Nat) :=
  dedup (pairs.mergeSort fun p q => p.1 ≤ q.1)

/-- The targets from the key `low` on, for `n` keys; the pairs increase and none is below. -/
def fill (default : Nat) : Nat → Int → List (Int32 × Nat) → List Nat
  | 0, _, _ => []
  | n + 1, key, [] => default :: fill default n (key + 1) []
  | n + 1, key, p :: ps =>
    if p.1.toInt = key then p.2 :: fill default n (key + 1) ps
    else default :: fill default n (key + 1) (p :: ps)

/-- A table when the keys span at most twice as many values as there are keys. -/
def ofPairs (pairs : List (Int32 × Nat)) (default : Nat) : SwitchTable :=
  let ps := sorted pairs
  match ps.head?, ps.getLast? with
  | some (low, _), some (high, _) =>
    let span := (high.toInt - low.toInt + 1).toNat
    if span > 2 * ps.length then chain ps
    else indexed low high (fill default span low.toInt ps)
  | _, _ => chain []

end SwitchTable

end ClassScript
