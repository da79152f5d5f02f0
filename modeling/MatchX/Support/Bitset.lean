import Mathlib.Data.List.Basic
import Mathlib.Order.Bounds.Basic

/-!
# Bit sets in 64-bit words

A set of indices below a bound, one bit an index, held in a vector of words, with the scans
for its largest and its smallest member.
-/

namespace MatchX.Support

/-- `u64::leading_zeros`. -/
def leadingZeros (word : UInt64) : Nat := word.toBitVec.clz.toNat

/-- `u64::trailing_zeros`. -/
def trailingZeros (word : UInt64) : Nat := word.toBitVec.ctz.toNat

/-- Number of words for `n` bits. -/
def wordCount (n : Nat) : Nat := (n + 63) / 64

/-- The word of an index below the bound is one of the words. -/
theorem word_lt {n : Nat} (i : Fin n) : i.val / 64 < wordCount n := by
  have := i.isLt
  simp only [wordCount]
  omega

/-- A set of indices below `n`. -/
abbrev Bitset (n : Nat) := Vector UInt64 (wordCount n)

namespace Bitset

variable {n : Nat}

/-- The single bit `i % 64`. -/
def bit (i : Nat) : UInt64 := 1 <<< UInt64.ofNat (i % 64)

/-- No index is set. -/
def empty (n : Nat) : Bitset n := Vector.replicate (wordCount n) 0

/-- Set the bit of an index. -/
def insert (set : Bitset n) (i : Fin n) : Bitset n :=
  set.set (i.val / 64) (set.get ⟨i.val / 64, word_lt i⟩ ||| bit i.val) (word_lt i)

/-- Clear the bit of an index. -/
def erase (set : Bitset n) (i : Fin n) : Bitset n :=
  set.set (i.val / 64) (set.get ⟨i.val / 64, word_lt i⟩ &&& ~~~bit i.val) (word_lt i)

/-- Whether the bit of an index is set. -/
def test (set : Bitset n) (i : Nat) : Bool :=
  (set.toList.getD (i / 64) 0).toBitVec.getLsbD (i % 64)

/-- The words are scanned from the last one for a non-zero word, whose highest bit is the
largest index set. -/
def highest (set : Bitset n) : Option Nat :=
  (set.toList.zipIdx.reverse.find? fun entry => entry.1 != 0).map fun (word, k) =>
    k * 64 + (63 - leadingZeros word)

/-- The words are scanned from the first one for a non-zero word, whose lowest bit is the
smallest index set. -/
def lowest (set : Bitset n) : Option Nat :=
  (set.toList.zipIdx.find? fun entry => entry.1 != 0).map fun (word, k) =>
    k * 64 + trailingZeros word

/-- The highest bit of a non-zero word is set. -/
theorem highBit_set {word : UInt64} (nonzero : word ≠ 0) :
    word.toBitVec.getLsbD (63 - leadingZeros word) = true :=
  BitVec.getLsbD_true_clz_of_ne_zero (by decide) fun zero => nonzero (UInt64.toBitVec_inj.mp zero)

/-- No bit above the highest one is set. -/
theorem le_highBit {word : UInt64} {b : Nat} (set : word.toBitVec.getLsbD b = true) :
    b ≤ 63 - leadingZeros word := by
  have below : word.toNat < 2 ^ (64 - leadingZeros word) := BitVec.toNat_lt_two_pow_sub_clz
  have atLeast : 2 ^ b ≤ word.toNat := Nat.ge_two_pow_of_testBit set
  have := (Nat.pow_lt_pow_iff_right (by decide : 1 < 2)).mp (Nat.lt_of_le_of_lt atLeast below)
  omega

/-- The lowest bit of a non-zero word is set. -/
theorem lowBit_set {word : UInt64} (nonzero : word ≠ 0) :
    word.toBitVec.getLsbD (trailingZeros word) = true :=
  BitVec.getLsbD_true_ctz_of_ne_zero fun zero => nonzero (UInt64.toBitVec_inj.mp zero)

/-- No bit below the lowest one is set. -/
theorem lowBit_le {word : UInt64} {b : Nat} (set : word.toBitVec.getLsbD b = true) :
    trailingZeros word ≤ b := by
  by_contra below
  have clear : word.toBitVec.getLsbD b = false :=
    BitVec.getLsbD_false_of_lt_ctz (Nat.lt_of_not_le below)
  rw [clear] at set
  contradiction

/-- A set bit belongs to a non-zero word, and has a number below 64 in it. -/
theorem bit_lt {word : UInt64} {b : Nat} (set : word.toBitVec.getLsbD b = true) :
    word ≠ 0 ∧ b < 64 := by
  constructor
  · rintro rfl
    simp at set
  · exact BitVec.lt_of_getLsbD set

/-- The word of `bit i` is that power of two. -/
theorem getLsbD_bit (i b : Nat) :
    (bit i).toBitVec.getLsbD b = decide (b = i % 64) := by
  have small : i % 64 < 64 := Nat.mod_lt _ (by decide)
  have shift : (UInt64.ofNat (i % 64)).toNat = i % 64 :=
    UInt64.toNat_ofNat_of_lt' (by simp only [UInt64.size]; omega)
  have value : (bit i).toBitVec = BitVec.twoPow 64 (i % 64) := by
    apply BitVec.eq_of_toNat_eq
    rw [UInt64.toNat_toBitVec, bit, UInt64.toNat_shiftLeft, shift, BitVec.toNat_twoPow,
      Nat.mod_eq_of_lt small]
    simp [Nat.shiftLeft_eq]
  rw [value, BitVec.getLsbD_twoPow]
  simp only [small, decide_true, Bool.true_and, eq_comm]

/-- An index is set when its bit is set in its word. -/
theorem test_iff {set : Bitset n} {i : Nat} :
    set.test i = true ↔ ∃ word, set.toList[i / 64]? = some word ∧
      word.toBitVec.getLsbD (i % 64) = true := by
  unfold test
  rw [List.getD_eq_getElem?_getD]
  cases set.toList[i / 64]? <;> simp

/-- The empty set has no index. -/
@[simp] theorem test_empty (i : Nat) : (empty n).test i = false := by
  unfold test empty
  rw [Vector.toList_replicate, List.getD_eq_getElem?_getD, List.getElem?_replicate]
  split <;> simp

/-- Reading a word after one word is overwritten. -/
theorem test_set {set : Bitset n} {k : Nat} (inside : k < wordCount n) (word : UInt64)
    (i : Nat) : (show Bitset n from Vector.set set k word inside).test i =
      if i / 64 = k then word.toBitVec.getLsbD (i % 64) else set.test i := by
  unfold test
  rw [Vector.toList_set, List.getD_eq_getElem?_getD, List.getD_eq_getElem?_getD]
  by_cases same : i / 64 = k
  · subst same
    simp [inside]
  · rw [List.getElem?_set_ne (Ne.symm same), if_neg same]

/-- The bit of an index in its word. -/
theorem getLsbD_word {set : Bitset n} (i : Fin n) (j : Nat) (same : j / 64 = i.val / 64) :
    (set.get ⟨i.val / 64, word_lt i⟩).toBitVec.getLsbD (j % 64) = set.test j := by
  unfold test
  rw [same, List.getD_eq_getElem?_getD, List.getElem?_eq_getElem (by simpa using word_lt i),
    Option.getD_some, Vector.getElem_toList]
  rfl

/-- Setting an index sets that index and no other. -/
@[simp] theorem test_insert (set : Bitset n) (i : Fin n) (j : Nat) :
    (set.insert i).test j = (decide (j = i.val) || set.test j) := by
  rw [insert, test_set]
  split
  · rename_i same
    rw [UInt64.toBitVec_or, BitVec.getLsbD_or, getLsbD_word i j same, getLsbD_bit, Bool.or_comm]
    congr 2
    exact propext ⟨fun h => by omega, fun h => by omega⟩
  · rename_i other
    have : j ≠ i.val := fun h => other (by rw [h])
    simp [this]

/-- Clearing an index clears that index and no other. -/
@[simp] theorem test_erase (set : Bitset n) (i : Fin n) (j : Nat) :
    (set.erase i).test j = (decide (j ≠ i.val) && set.test j) := by
  rw [erase, test_set]
  split
  · rename_i same
    rw [UInt64.toBitVec_and, UInt64.toBitVec_not, BitVec.getLsbD_and, BitVec.getLsbD_not,
      getLsbD_word i j same, getLsbD_bit, Bool.and_comm]
    have small : j % 64 < 64 := Nat.mod_lt _ (by decide)
    simp only [small, decide_true, Bool.true_and, ← decide_not]
    congr 2
    exact propext ⟨fun h => by omega, fun h => by omega⟩
  · rename_i other
    have : j ≠ i.val := fun h => other (by rw [h])
    simp [this]

/-- The numbered words are listed by number. -/
theorem words_ordered (set : Bitset n) :
    set.toList.zipIdx.Pairwise fun left right => left.2 < right.2 := by
  have numbers : (set.toList.zipIdx.map Prod.snd).Pairwise fun left right => left < right := by
    rw [List.zipIdx_map_snd]
    exact List.pairwise_lt_range'
  exact List.pairwise_map.mp numbers

/-- The highest index found is set, and no larger one is. -/
theorem highest_some {set : Bitset n} {i : Nat} (found : set.highest = some i) :
    set.test i = true ∧ ∀ j, set.test j = true → j ≤ i := by
  simp only [highest, Option.map_eq_some_iff, List.find?_eq_some_iff_append] at found
  obtain ⟨⟨word, k⟩, ⟨nonzero, before, after, split, zeros⟩, rfl⟩ := found
  have nonzero : word ≠ 0 := by simpa using nonzero
  have ordered := List.pairwise_reverse.mpr (words_ordered set)
  rw [split] at ordered
  have top := highBit_set nonzero
  have small := (bit_lt top).2
  have placed : set.toList[k]? = some word := by
    have member : (word, k) ∈ set.toList.zipIdx.reverse := by rw [split]; simp
    simpa [List.mem_zipIdx_iff_getElem?] using member
  refine ⟨test_iff.mpr ⟨word, ?_, ?_⟩, fun j inSet => ?_⟩
  · rw [show (k * 64 + (63 - leadingZeros word)) / 64 = k by omega]
    exact placed
  · rw [show (k * 64 + (63 - leadingZeros word)) % 64 = 63 - leadingZeros word by omega]
    exact top
  · change j ≤ k * 64 + (63 - leadingZeros word)
    obtain ⟨other, at', bitSet⟩ := test_iff.mp inSet
    have member : (other, j / 64) ∈ set.toList.zipIdx.reverse := by
      simpa [List.mem_zipIdx_iff_getElem?] using at'
    rw [split, List.mem_append, List.mem_cons] at member
    rcases member with earlier | same | later
    · have zero := zeros _ earlier
      exact absurd (by simpa using zero) (bit_lt bitSet).1
    · obtain ⟨sameWord, sameNumber⟩ := Prod.mk.inj same
      have : j % 64 ≤ 63 - leadingZeros word := le_highBit (sameWord ▸ bitSet)
      omega
    · have := (List.pairwise_cons.mp (List.pairwise_append.mp ordered).2.1).1 _ later
      simp only at this
      omega

/-- No index is set exactly when every word is zero. -/
theorem words_zero (set : Bitset n) :
    (∀ entry ∈ set.toList.zipIdx, ¬(entry.1 != 0) = true) ↔ ∀ j, set.test j = false := by
  constructor
  · intro zeros j
    by_contra inSet
    obtain ⟨word, placed, bitSet⟩ := test_iff.mp (by simpa using inSet)
    have zero := zeros (word, j / 64) (List.mem_zipIdx_iff_getElem?.mpr placed)
    exact (bit_lt bitSet).1 (by simpa using zero)
  · rintro clear ⟨word, k⟩ member nonzero
    have nonzero : word ≠ 0 := by simpa using nonzero
    have low := lowBit_set nonzero
    have small := (bit_lt low).2
    have inSet : set.test (k * 64 + trailingZeros word) = true := by
      refine test_iff.mpr ⟨word, ?_, ?_⟩
      · rw [show (k * 64 + trailingZeros word) / 64 = k by omega]
        exact List.mem_zipIdx_iff_getElem?.mp member
      · rw [show (k * 64 + trailingZeros word) % 64 = trailingZeros word by omega]
        exact low
    rw [clear] at inSet
    contradiction

/-- No index is found exactly when none is set. -/
theorem highest_none {set : Bitset n} : set.highest = none ↔ ∀ j, set.test j = false := by
  simp only [highest, Option.map_eq_none_iff, List.find?_eq_none, List.mem_reverse]
  exact words_zero set

/-- The scan from the last word finds the largest index set. -/
theorem highest_iff {set : Bitset n} {i : Nat} :
    set.highest = some i ↔ IsGreatest {j | set.test j = true} i := by
  constructor
  · intro found
    exact highest_some found
  · intro greatest
    cases found : set.highest with
    | none =>
      have clear := highest_none.mp found i
      have inSet : set.test i = true := greatest.1
      rw [clear] at inSet
      contradiction
    | some k =>
      have greatest' : IsGreatest {j | set.test j = true} k := highest_some found
      rw [greatest'.unique greatest]

/-- The lowest index found is set, and no smaller one is. -/
theorem lowest_some {set : Bitset n} {i : Nat} (found : set.lowest = some i) :
    set.test i = true ∧ ∀ j, set.test j = true → i ≤ j := by
  simp only [lowest, Option.map_eq_some_iff, List.find?_eq_some_iff_append] at found
  obtain ⟨⟨word, k⟩, ⟨nonzero, before, after, split, zeros⟩, rfl⟩ := found
  have nonzero : word ≠ 0 := by simpa using nonzero
  have ordered := words_ordered set
  rw [split] at ordered
  have low := lowBit_set nonzero
  have small := (bit_lt low).2
  have placed : set.toList[k]? = some word := by
    have member : (word, k) ∈ set.toList.zipIdx := by rw [split]; simp
    exact List.mem_zipIdx_iff_getElem?.mp member
  refine ⟨test_iff.mpr ⟨word, ?_, ?_⟩, fun j inSet => ?_⟩
  · rw [show (k * 64 + trailingZeros word) / 64 = k by omega]
    exact placed
  · rw [show (k * 64 + trailingZeros word) % 64 = trailingZeros word by omega]
    exact low
  · change k * 64 + trailingZeros word ≤ j
    obtain ⟨other, at', bitSet⟩ := test_iff.mp inSet
    have member : (other, j / 64) ∈ set.toList.zipIdx := List.mem_zipIdx_iff_getElem?.mpr at'
    rw [split, List.mem_append, List.mem_cons] at member
    rcases member with earlier | same | later
    · have zero := zeros _ earlier
      exact absurd (by simpa using zero) (bit_lt bitSet).1
    · obtain ⟨sameWord, sameNumber⟩ := Prod.mk.inj same
      have : trailingZeros word ≤ j % 64 := lowBit_le (sameWord ▸ bitSet)
      omega
    · have := (List.pairwise_cons.mp (List.pairwise_append.mp ordered).2.1).1 _ later
      simp only at this
      omega

/-- No index is found exactly when none is set. -/
theorem lowest_none {set : Bitset n} : set.lowest = none ↔ ∀ j, set.test j = false := by
  simp only [lowest, Option.map_eq_none_iff, List.find?_eq_none]
  exact words_zero set

/-- The scan from the first word finds the smallest index set. -/
theorem lowest_iff {set : Bitset n} {i : Nat} :
    set.lowest = some i ↔ IsLeast {j | set.test j = true} i := by
  constructor
  · intro found
    exact lowest_some found
  · intro least
    cases found : set.lowest with
    | none =>
      have clear := lowest_none.mp found i
      have inSet : set.test i = true := least.1
      rw [clear] at inSet
      contradiction
    | some k =>
      have least' : IsLeast {j | set.test j = true} k := lowest_some found
      rw [least'.unique least]

end Bitset

end MatchX.Support
