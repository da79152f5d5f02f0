import Mathlib.Data.List.Nodup

/-!
# Doubly linked lists over an index-addressed store

A store maps indices to nodes, and a node names the indices of its neighbours. `Linked`
says that the nodes at a list of indices are linked in that order. One lemma,
`linked_retarget`, covers every update of the links: a chain whose first node is given a new
predecessor and whose last node a new successor stays linked, when the nodes in between keep
their links. Appending a node and unlinking one are instances of it.
-/

namespace MatchX.Support

/-- How a node names its neighbours. -/
structure Links (ι ν : Type) where
  /-- The index before a node. -/
  prev : ν → ι
  /-- The index after a node. -/
  next : ν → ι

variable {ι ν : Type} {links : Links ι ν} {find find' : ι → Option ν}

/-- The nodes of a chain are linked in order, the first one back to `before` and the last one
on to `after`. -/
def Linked (links : Links ι ν) (find : ι → Option ν) : ι → List ι → ι → Prop
  | _, [], _ => True
  | before, i :: rest, after =>
    (∃ node, find i = some node ∧ links.prev node = before ∧
      links.next node = rest.headD after) ∧ Linked links find i rest after

/-- Two chains in a row are linked exactly when each is, the ends facing each other. -/
theorem linked_append {before after : ι} {front back : List ι} :
    Linked links find before (front ++ back) after ↔
      Linked links find before front (back.headD after) ∧
        Linked links find (front.getLastD before) back after := by
  induction front generalizing before with
  | nil => simp [Linked]
  | cons i rest ih =>
    rw [List.cons_append, Linked, ih, Linked, List.getLastD_cons, and_assoc]
    cases rest <;> simp

/-- A node in the middle of a chain names the ends of the parts around it. -/
theorem linked_middle {before after i : ι} {front back : List ι}
    (linked : Linked links find before (front ++ i :: back) after) :
    ∃ node, find i = some node ∧ links.prev node = front.getLastD before ∧
      links.next node = back.headD after :=
  (linked_append.mp linked).2.1

/-- Every index of a chain has a node. -/
theorem linked_find {before after i : ι} {chain : List ι}
    (linked : Linked links find before chain after) (member : i ∈ chain) :
    ∃ node, find i = some node := by
  obtain ⟨front, back, rfl⟩ := List.append_of_mem member
  obtain ⟨node, found, -⟩ := linked_middle linked
  exact ⟨node, found⟩

/-- A chain stays linked when its first node gets a new predecessor and its last node a new
successor, every other link being kept. -/
theorem linked_retarget [DecidableEq ι] {before after before' after' : ι} {chain : List ι}
    (nodup : chain.Nodup) (linked : Linked links find before chain after)
    (kept : ∀ i ∈ chain, ∀ node, find i = some node →
      ∃ node', find' i = some node' ∧
        links.prev node' = (if chain.head? = some i then before' else links.prev node) ∧
        links.next node' = (if chain.getLast? = some i then after' else links.next node)) :
    Linked links find' before' chain after' := by
  induction chain generalizing before before' with
  | nil => trivial
  | cons i rest ih =>
    obtain ⟨⟨node, found, -, next⟩, tail⟩ := linked
    obtain ⟨fresh, nodup⟩ := List.nodup_cons.mp nodup
    constructor
    · obtain ⟨node', found', prev', next'⟩ := kept i List.mem_cons_self node found
      refine ⟨node', found', by simpa using prev', ?_⟩
      cases rest with
      | nil => simpa using next'
      | cons j rest =>
        have notLast : (i :: j :: rest).getLast? ≠ some i := fun last =>
          fresh (List.mem_of_getLast? (List.getLast?_cons_cons ▸ last))
        rw [next', if_neg notLast, next]
        rfl
    · refine ih nodup tail fun j member node found => ?_
      have apart : i ≠ j := fun same => fresh (same ▸ member)
      obtain ⟨node', found', prev', next'⟩ := kept j (List.mem_cons_of_mem i member) node found
      refine ⟨node', found', ?_, ?_⟩
      · rw [prev', if_neg (by simpa using apart)]
        split
        · rename_i first
          cases rest with
          | nil => cases member
          | cons k rest =>
            obtain rfl := Option.some.inj first
            obtain ⟨⟨node₂, found₂, prev₂, -⟩, -⟩ := tail
            rw [found] at found₂
            rw [Option.some.inj found₂, prev₂]
        · rfl
      · rw [next']
        cases rest with
        | nil => cases member
        | cons k rest => rw [List.getLast?_cons_cons]

/-- The first node of a chain names what is before the chain. -/
theorem linked_head {before after i : ι} {chain : List ι} {node : ν}
    (linked : Linked links find before chain after) (first : chain.head? = some i)
    (found : find i = some node) : links.prev node = before := by
  cases chain with
  | nil => contradiction
  | cons j rest =>
    obtain rfl := Option.some.inj first
    obtain ⟨⟨node', found', prev, -⟩, -⟩ := linked
    rw [found] at found'
    rw [Option.some.inj found', prev]

/-- The last node of a chain names what is after the chain. -/
theorem linked_last {before after i : ι} {chain : List ι} {node : ν}
    (linked : Linked links find before chain after) (last : chain.getLast? = some i)
    (found : find i = some node) : links.next node = after := by
  obtain ⟨front, rfl⟩ := List.getLast?_eq_some_iff.mp last
  obtain ⟨node', found', -, next⟩ := linked_middle linked
  rw [found] at found'
  rw [Option.some.inj found', next]
  rfl

/-- A chain stays linked when a new node is appended: the last node so far gets the new one
as its successor. -/
theorem linked_push [DecidableEq ι] {before after i : ι} {chain : List ι} (nodup : chain.Nodup)
    (linked : Linked links find before chain after)
    (kept : ∀ j ∈ chain, ∀ node, find j = some node →
      ∃ node', find' j = some node' ∧ links.prev node' = links.prev node ∧
        links.next node' = (if chain.getLast? = some j then i else links.next node))
    (pushed : ∃ node, find' i = some node ∧ links.prev node = chain.getLastD before ∧
      links.next node = after) : Linked links find' before (chain ++ [i]) after := by
  refine linked_append.mpr ⟨?_, pushed, trivial⟩
  refine linked_retarget nodup linked fun j member node found => ?_
  obtain ⟨node', found', prev', next'⟩ := kept j member node found
  refine ⟨node', found', ?_, next'⟩
  split
  · rename_i first
    rw [prev', linked_head linked first found]
  · exact prev'

/-- A chain stays linked when a node is taken out: its neighbours get each other. -/
theorem linked_unlink [DecidableEq ι] {before after i : ι} {front back : List ι}
    (nodup : (front ++ i :: back).Nodup)
    (linked : Linked links find before (front ++ i :: back) after)
    (kept : ∀ j ∈ front ++ back, ∀ node, find j = some node →
      ∃ node', find' j = some node' ∧
        links.prev node' =
          (if back.head? = some j then front.getLastD before else links.prev node) ∧
        links.next node' =
          (if front.getLast? = some j then back.headD after else links.next node)) :
    Linked links find' before (front ++ back) after := by
  obtain ⟨frontNodup, restNodup, apart⟩ := List.nodup_append.mp nodup
  obtain ⟨-, backNodup⟩ := List.nodup_cons.mp restNodup
  obtain ⟨frontLinked, -, backLinked⟩ := linked_append.mp linked
  refine linked_append.mpr ⟨?_, ?_⟩
  · refine linked_retarget frontNodup frontLinked fun j member node found => ?_
    obtain ⟨node', found', prev', next'⟩ := kept j (List.mem_append_left back member) node found
    have other : back.head? ≠ some j := fun first =>
      apart j member j (List.mem_cons_of_mem i (List.mem_of_mem_head? first)) rfl
    refine ⟨node', found', ?_, next'⟩
    rw [prev', if_neg other]
    split
    · rename_i first
      exact linked_head frontLinked first found
    · rfl
  · refine linked_retarget backNodup backLinked fun j member node found => ?_
    obtain ⟨node', found', prev', next'⟩ := kept j (List.mem_append_right front member) node found
    have other : front.getLast? ≠ some j := fun last =>
      apart j (List.mem_of_getLast? last) j (List.mem_cons_of_mem i member) rfl
    refine ⟨node', found', prev', ?_⟩
    rw [next', if_neg other]
    split
    · rename_i last
      exact linked_last backLinked last found
    · rfl

/-- A chain stays linked when its nodes keep their links. -/
theorem linked_congr {before after : ι} {chain : List ι}
    (linked : Linked links find before chain after)
    (kept : ∀ i ∈ chain, ∀ node, find i = some node → ∃ node', find' i = some node' ∧
      links.prev node' = links.prev node ∧ links.next node' = links.next node) :
    Linked links find' before chain after := by
  induction chain generalizing before with
  | nil => trivial
  | cons i rest ih =>
    obtain ⟨⟨node, found, prev, next⟩, tail⟩ := linked
    obtain ⟨node', found', prev', next'⟩ := kept i List.mem_cons_self node found
    exact ⟨⟨node', found', prev'.trans prev, next'.trans next⟩,
      ih tail fun j member => kept j (List.mem_cons_of_mem i member)⟩

/-- The first index of a chain determines the chain, up to the index that ends it. -/
theorem linked_unique {before before' stop : ι} {chain chain' : List ι}
    (linked : Linked links find before chain stop) (linked' : Linked links find before' chain' stop)
    (proper : stop ∉ chain) (proper' : stop ∉ chain')
    (same : chain.headD stop = chain'.headD stop) : chain = chain' := by
  induction chain generalizing before before' chain' with
  | nil =>
    cases chain' with
    | nil => rfl
    | cons i' rest' =>
      have first : stop = i' := same
      exact absurd (first ▸ List.mem_cons_self) proper'
  | cons i rest ih =>
    cases chain' with
    | nil =>
      have first : i = stop := same
      exact absurd (first ▸ List.mem_cons_self) proper
    | cons i' rest' =>
      obtain rfl : i = i' := same
      obtain ⟨⟨node, found, -, next⟩, tail⟩ := linked
      obtain ⟨⟨node', found', -, next'⟩, tail'⟩ := linked'
      obtain rfl : node = node' := Option.some.inj (found.symm.trans found')
      have heads : rest.headD stop = rest'.headD stop := next.symm.trans next'
      rw [ih tail tail' (List.not_mem_of_not_mem_cons proper)
        (List.not_mem_of_not_mem_cons proper') heads]

/-- Follow the next links from an index for a number of nodes; `stop` tells the index that
ends a chain. -/
def walk [DecidableEq ι] (links : Links ι ν) (find : ι → Option ν) (stop : ι) :
    Nat → ι → List ι
  | 0, _ => []
  | count + 1, i =>
    match find i with
    | none => []
    | some node => if i = stop then [] else i :: walk links find stop count (links.next node)

/-- Walking as many nodes as a chain has, from its first one, visits the chain. -/
theorem walk_linked [DecidableEq ι] {before stop : ι} {chain : List ι}
    (linked : Linked links find before chain stop) (proper : stop ∉ chain) :
    walk links find stop chain.length (chain.headD stop) = chain := by
  induction chain generalizing before with
  | nil => rfl
  | cons i rest ih =>
    obtain ⟨⟨node, found, -, next⟩, tail⟩ := linked
    simp only [List.mem_cons, not_or] at proper
    simp only [List.headD_cons, List.length_cons, walk, found, next, if_neg (Ne.symm proper.1)]
    rw [ih tail proper.2]

end MatchX.Support
