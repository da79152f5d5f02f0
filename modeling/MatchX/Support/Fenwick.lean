import Mathlib.Algebra.BigOperators.Intervals
import Mathlib.Algebra.Order.BigOperators.Group.Finset
import Mathlib.Data.Nat.Bitwise
import Mathlib.Tactic.Ring

/-!
# Positions and nodes of a Fenwick tree

Node `i` of a Fenwick tree sums as many positions as the lowest set bit of `i` says, the last of
them being `i` (counted from 1). The nodes that cover a position are that position itself and
those that cover the position its lowest set bit further on; the positions up to `i` are those of
node `i` and those up to `i` less its lowest set bit.
-/

namespace MatchX.Support

/-- The lowest set bit of a number. -/
def IsLowBit (number low : Nat) : Prop :=
  ∃ exponent half, low = 2 ^ exponent ∧ number = 2 ^ exponent * (2 * half + 1)

/-- Every positive number has a lowest set bit. -/
theorem exists_isLowBit {number : Nat} (positive : 0 < number) : ∃ low, IsLowBit number low := by
  induction number using Nat.strong_induction_on with
  | _ number ih =>
    obtain ⟨half, rfl | rfl⟩ := Nat.even_or_odd' number
    · obtain ⟨low, exponent, rest, -, rfl⟩ := ih half (by omega) (by omega)
      exact ⟨_, exponent + 1, rest, rfl, by rw [Nat.pow_succ]; ring⟩
    · exact ⟨1, 0, half, rfl, by omega⟩

/-- The lowest set bit is positive and no more than the number. -/
theorem IsLowBit.bounds {number low : Nat} (lowest : IsLowBit number low) :
    0 < low ∧ low ≤ number := by
  obtain ⟨exponent, half, rfl, rfl⟩ := lowest
  exact ⟨Nat.two_pow_pos exponent, Nat.le_mul_of_pos_right _ (Nat.succ_pos _)⟩

/-- A number and its complement share their lowest set bit and no other. -/
theorem isLowBit_and_sub {number size : Nat} (positive : 0 < number) (fits : number < 2 ^ size) :
    IsLowBit number (number &&& (2 ^ size - number)) := by
  obtain ⟨low, exponent, half, -, rfl⟩ := exists_isLowBit positive
  refine ⟨exponent, half, ?_, rfl⟩
  have within : exponent < size := by
    have below := (Nat.le_mul_of_pos_right (2 ^ exponent) (Nat.succ_pos (2 * half))).trans_lt fits
    exact (Nat.pow_lt_pow_iff_right (by decide)).mp below
  obtain ⟨rest, rfl⟩ : ∃ rest, size = exponent + (rest + 1) := ⟨size - exponent - 1, by omega⟩
  have halfFits : half < 2 ^ rest := by
    rw [Nat.pow_add, Nat.mul_lt_mul_left (Nat.two_pow_pos exponent), Nat.pow_succ] at fits
    omega
  have complement : 2 ^ (exponent + (rest + 1)) - 2 ^ exponent * (2 * half + 1) =
      2 ^ exponent * (2 * (2 ^ rest - (half + 1)) + 1) := by
    rw [Nat.pow_add, ← Nat.mul_sub, Nat.pow_succ]
    congr 1
    omega
  refine Nat.eq_of_testBit_eq fun bit => ?_
  rw [complement, Nat.testBit_and, Nat.testBit_two_pow_mul, Nat.testBit_two_pow_mul,
    Nat.testBit_two_pow]
  obtain below | ⟨above, rfl⟩ : bit < exponent ∨ ∃ above, bit = exponent + above := by
    obtain less | more := Nat.lt_or_ge bit exponent
    · exact .inl less
    · exact .inr ⟨bit - exponent, by omega⟩
  · simp [Nat.not_le.mpr below, Nat.ne_of_gt below]
  · -- Above the lowest bit the two halves are complements of each other.
    cases above with
    | zero => simp
    | succ above =>
      have odd (rest : Nat) : (2 * rest + 1) / 2 = rest := by omega
      rw [Nat.add_sub_cancel_left, Nat.testBit_succ, Nat.testBit_succ, odd, odd,
        Nat.testBit_two_pow_sub_succ halfFits]
      cases half.testBit above <;> simp

/-- A node covers a position, counted from 1. -/
def Covers (node low position : Nat) : Prop := node - low < position ∧ position ≤ node

instance (node low position : Nat) : Decidable (Covers node low position) :=
  inferInstanceAs (Decidable (_ ∧ _))

/-- The nodes that cover a position are the one of its number and those that cover the position
its lowest set bit further on. -/
theorem covers_iff {node low position step : Nat} (nodeBit : IsLowBit node low)
    (positionBit : IsLowBit position step) :
    Covers node low position ↔ position = node ∨ Covers node low (position + step) := by
  obtain ⟨high, half, rfl, rfl⟩ := nodeBit
  obtain ⟨deep, rest, rfl, rfl⟩ := positionBit
  have start : 2 ^ high * (2 * half + 1) - 2 ^ high = 2 ^ high * (2 * half) := by
    rw [Nat.mul_succ, Nat.add_sub_cancel]
  have onward : 2 ^ deep * (2 * rest + 1) + 2 ^ deep = 2 ^ deep * (2 * (rest + 1)) := by ring
  rw [Covers, Covers, start, onward]
  obtain ⟨gap, rfl | rfl⟩ : ∃ gap, high = deep + (gap + 1) ∨ deep = high + gap := by
    obtain less | more := Nat.lt_or_ge deep high
    · exact ⟨high - deep - 1, .inl (by omega)⟩
    · exact ⟨deep - high, .inr (by omega)⟩
  · -- The position is within a block of the node's lower half or of its upper one.
    have scaled (factor : Nat) : 2 ^ (deep + (gap + 1)) * factor =
        2 ^ deep * (2 * (2 ^ gap * factor)) := by rw [Nat.pow_add, Nat.pow_succ]; ring
    have positive := Nat.two_pow_pos deep
    rw [scaled, scaled, Nat.mul_lt_mul_left positive, Nat.mul_lt_mul_left positive,
      Nat.mul_le_mul_left_iff positive, Nat.mul_le_mul_left_iff positive,
      Nat.mul_right_inj (Nat.ne_of_gt positive)]
    omega
  · -- The position is a multiple of the node's lowest bit, so it is the node.
    have scaled (factor : Nat) : 2 ^ (high + gap) * factor = 2 ^ high * (2 ^ gap * factor) := by
      rw [Nat.pow_add, Nat.mul_assoc]
    have positive := Nat.two_pow_pos high
    have doubled : 2 ^ gap * (2 * (rest + 1)) = 2 * (2 ^ gap * (rest + 1)) := by ring
    rw [scaled, scaled, doubled, Nat.mul_lt_mul_left positive, Nat.mul_lt_mul_left positive,
      Nat.mul_le_mul_left_iff positive, Nat.mul_le_mul_left_iff positive,
      Nat.mul_right_inj (Nat.ne_of_gt positive)]
    omega

/-! ### Sums of nodes -/

variable {node low position delta : Nat} {weight : Nat → Nat}

/-- The sum of the positions that a node covers; position `i + 1` weighs `weight i`. -/
def nodeSum (weight : Nat → Nat) (node low : Nat) : Nat :=
  ∑ index ∈ Finset.Ico (node - low) node, weight index

/-- The positions up to a node are its own and those before them. -/
theorem sum_range_eq_nodeSum (weight : Nat → Nat) (node low : Nat) :
    ∑ index ∈ Finset.range node, weight index =
      nodeSum weight node low + ∑ index ∈ Finset.range (node - low), weight index := by
  rw [nodeSum, Nat.add_comm, Finset.sum_range_add_sum_Ico _ (Nat.sub_le node low)]

/-- A node covers the position of an index exactly when the index is in its range. -/
theorem covers_succ {index : Nat} :
    Covers node low (index + 1) ↔ index ∈ Finset.Ico (node - low) node := by
  rw [Covers, Finset.mem_Ico]
  omega

/-- Adding to one weight adds to the nodes that cover it. -/
theorem nodeSum_add (index delta : Nat) :
    nodeSum (fun i => weight i + if i = index then delta else 0) node low =
      nodeSum weight node low + if Covers node low (index + 1) then delta else 0 := by
  rw [nodeSum, Finset.sum_add_distrib, Finset.sum_ite_eq', nodeSum]
  simp only [covers_succ]

/-- A node sums no more than all positions. -/
theorem nodeSum_le {size : Nat} (inside : node ≤ size) :
    nodeSum weight node low ≤ ∑ index ∈ Finset.range size, weight index :=
  Finset.sum_le_sum_of_subset fun index among => by
    rw [Finset.mem_Ico] at among
    exact Finset.mem_range.mpr (by omega)

/-- A node that covers a position sums at least its weight. -/
theorem le_nodeSum {index : Nat} (covers : Covers node low (index + 1)) :
    weight index ≤ nodeSum weight node low :=
  Finset.single_le_sum (fun _ _ => Nat.zero_le _) (covers_succ.mp covers)

end MatchX.Support
