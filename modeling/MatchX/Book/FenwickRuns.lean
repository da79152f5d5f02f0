import MatchX.Book.DepthChecks
import MatchX.Support.Runs

/-!
# Histories of a Fenwick tree

A tree beside the values that it stands for, one a position. Additions and subtractions are made
of both. However many are made, as long as no value is taken below zero and all values sum to a
word, the prefix and suffix sums of the tree are those of the values, and no subtraction finds a
node smaller than what it takes.
-/

namespace MatchX.FenwickTree

open MatchX.Support

variable {size index : Nat} {delta : UInt64}

/-- A call that changes a tree. -/
inductive Change where
  /-- `add` -/
  | add (index : Nat) (delta : UInt64)
  /-- `sub` -/
  | sub (index : Nat) (delta : UInt64)

/-- A tree with the values it stands for. -/
structure ValuedTree where
  /-- The tree. -/
  tree : FenwickTree
  /-- The value at each position. -/
  value : Nat → Nat

namespace ValuedTree

/-- A new tree stands for zeros. -/
def new (size : Nat) : ValuedTree := ⟨FenwickTree.new size, fun _ => 0⟩

/-- Make a call of the tree, and change one value by as much. -/
def apply (valued : ValuedTree) : Change → Except Fault ValuedTree
  | .add index delta => .ok ⟨valued.tree.add index delta,
      Function.update valued.value index (valued.value index + delta.toNat)⟩
  | .sub index delta => .ok ⟨valued.tree.sub index delta,
      Function.update valued.value index (valued.value index - delta.toNat)⟩

/-- The sum of the values. -/
def total (valued : ValuedTree) (size : Nat) : Nat := ∑ i ∈ Finset.range size, valued.value i

/-- The calls that are made: of a position of the tree, with values that stay at zero or above and
sum to a word. -/
def Legal (size : Nat) (valued : ValuedTree) : Change → Prop
  | .add index delta => index < size ∧ valued.total size + delta.toNat < 2 ^ 64
  | .sub index delta => index < size ∧ delta.toNat ≤ valued.value index

instance (size : Nat) (valued : ValuedTree) (change : Change) :
    Decidable (valued.Legal size change) := by
  cases change <;> unfold Legal <;> infer_instance

/-- A tree reached from a new one by such calls, with its values. -/
abbrev Run (size : Nat) : ValuedTree → Prop :=
  Reached (· = new size) apply fun valued change => valued.Legal size change

/-- The values sum to a word, and the tree holds them. -/
structure Inv (size : Nat) (valued : ValuedTree) : Prop where
  /-- The nodes are sums of values. -/
  holds : valued.tree.Holds size valued.value
  /-- The sum of all values is a word. -/
  bounded : valued.total size < 2 ^ 64

variable {valued : ValuedTree}

/-- The values after one of them is changed sum to what the others do and the new value. -/
theorem total_update (tree : FenwickTree) (inside : index < size) (value : Nat) :
    total ⟨tree, Function.update valued.value index value⟩ size + valued.value index =
      valued.total size + value := by
  have member : index ∈ Finset.range size := Finset.mem_range.mpr inside
  have split := Finset.add_sum_erase (Finset.range size) valued.value member
  simp only [total, Finset.sum_update_of_mem member, Finset.sdiff_singleton_eq_erase]
  omega

/-- An addition keeps the invariant. -/
theorem Inv.add (inv : valued.Inv size) (legal : valued.Legal size (.add index delta)) :
    Inv size ⟨valued.tree.add index delta,
      Function.update valued.value index (valued.value index + delta.toNat)⟩ := by
  obtain ⟨inside, fits⟩ := legal
  have sum := @total_update _ _ valued (valued.tree.add index delta) inside
    (valued.value index + delta.toNat)
  refine ⟨(inv.holds.add index delta).congr fun i _ => ?_, ?_⟩
  · by_cases here : i = index
    · subst here
      simp
    · simp [here]
  · omega

/-- A subtraction of no more than the value keeps the invariant. -/
theorem Inv.sub (inv : valued.Inv size) (legal : valued.Legal size (.sub index delta)) :
    Inv size ⟨valued.tree.sub index delta,
      Function.update valued.value index (valued.value index - delta.toNat)⟩ := by
  obtain ⟨inside, enough⟩ := legal
  have bounded := inv.bounded
  have sum := @total_update _ _ valued (valued.tree.sub index delta) inside
    (valued.value index - delta.toNat)
  refine ⟨(inv.holds.sub enough bounded).congr fun i _ => ?_, ?_⟩
  · by_cases here : i = index
    · subst here
      simp
    · simp [here]
  · omega

/-- Every tree reached meets the invariant. -/
theorem Run.inv (fits : size + 1 < 2 ^ 64) (run : Run size valued) : valued.Inv size := by
  refine Reached.invariant ?_ ?_ run
  · rintro _ rfl
    exact ⟨holds_new fits, by simp [total, new]⟩
  · intro valued change following inv legal completed
    cases change with
    | add index delta => exact Except.ok.inj completed ▸ inv.add legal
    | sub index delta => exact Except.ok.inj completed ▸ inv.sub legal

/-- A sum of some of the values is the word that it is computed as. -/
theorem Inv.word (inv : valued.Inv size) {positions : Finset Nat}
    (within : positions ⊆ Finset.range size) :
    (UInt64.ofNat (∑ i ∈ positions, valued.value i)).toNat = ∑ i ∈ positions, valued.value i := by
  have most : ∑ i ∈ positions, valued.value i ≤ valued.total size :=
    Finset.sum_le_sum_of_subset within
  have bounded := inv.bounded
  exact UInt64.toNat_ofNat_of_lt' (show _ < 2 ^ 64 by omega)

/-- The tree answers for its values, and none of its arithmetic leaves the words. -/
structure Exact (size : Nat) (valued : ValuedTree) : Prop where
  /-- A prefix sum is the sum of the values up to a position. -/
  prefixSum : ∀ j < size,
    (valued.tree.prefixSum j).toNat = ∑ i ∈ Finset.range (j + 1), valued.value i
  /-- A suffix sum is the sum of the values from a position on. -/
  suffixSumGe : ∀ j < size,
    (valued.tree.suffixSumGe j).toNat = ∑ i ∈ Finset.Ico j size, valued.value i
  /-- No addition on the way to them overflows. -/
  fits : ∀ j < size, valued.tree.PrefixFits j ∧ valued.tree.SuffixFits j
  /-- A subtraction of no more than the value passes the assertion at every node it changes. -/
  sub : ∀ i delta, valued.Legal size (.sub i delta) → valued.tree.Subtractable i delta
  /-- An addition after which the values sum to a word overflows at no node. -/
  add : ∀ i delta, valued.Legal size (.add i delta) → valued.tree.Addable i delta

/-- In every history of a tree of any size, prefix and suffix sums are those of the values, and no
subtraction saturates or fails its assertion. The length of the nodes, `size + 1`, is a word. -/
theorem fenwick_sums_exact (fits : size + 1 < 2 ^ 64) (run : Run size valued) :
    valued.Exact size := by
  have inv := Run.inv fits run
  have holds := inv.holds
  have bounded := inv.bounded
  refine {
    prefixSum := fun j inside => ?_
    suffixSumGe := fun j inside => ?_
    fits := fun j inside => ⟨holds.prefixFits inside bounded, holds.suffixFits inside bounded⟩
    sub := fun i delta legal => holds.subtractable legal.2 bounded
    add := fun i delta legal => holds.addable legal.2 }
  · rw [holds.prefixSum inside]
    exact inv.word (Finset.range_subset_range.mpr inside)
  · rw [holds.suffixSumGe inside]
    refine inv.word fun i member => ?_
    exact Finset.mem_range.mpr (Finset.mem_Ico.mp member).2

/-- Seven positions, one of them raised and lowered again. -/
theorem fenwick_sums_exact_of_seven : ∃ valued, Run 7 valued ∧ valued.Exact 7 ∧
    (valued.tree.prefixSum 4 == 9 && valued.tree.suffixSumGe 4 == 6) = true := by
  obtain ⟨valued, run, shown⟩ : ∃ valued, Run 7 valued ∧
      (valued.tree.prefixSum 4 == 9 && valued.tree.suffixSumGe 4 == 6) = true :=
    Reached.exists_checkedRun (fun valued change => decide (Legal 7 valued change)) _
      (fun _ _ => of_decide_eq_true) rfl
      [.add 1 7, .add 4 5, .sub 4 3, .add 6 4] (by decide +kernel)
  exact ⟨valued, run, fenwick_sums_exact (by decide) run, shown⟩

end ValuedTree

end MatchX.FenwickTree
