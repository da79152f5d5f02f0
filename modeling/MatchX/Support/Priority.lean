import Mathlib.Data.List.Sort

/-!
# Lines served by priority

A line is a list whose items stand in the order in which they are served: no item stands behind
one that it precedes by its key. A new item is placed behind all those it does not precede, so
items of one key are served first come first. The items of a line at each key determine the
line, and the first item of the line is the first one at the best key.
-/

namespace MatchX.Support

variable {α β κ μ : Type}

/-- A strict order of keys, given by a test. -/
structure Precedence (before : κ → κ → Bool) : Prop where
  /-- Of two keys one at most precedes the other. -/
  asymm : ∀ {first second}, before first second = true → before second first = false
  /-- What precedes a key that precedes another one precedes it as well. -/
  trans : ∀ {first second third}, before first second = true → before second third = true →
    before first third = true
  /-- Of two keys one precedes the other, or they are the same. -/
  total : ∀ {first second}, before first second = false → before second first = false →
    first = second

/-- No key precedes itself. -/
theorem Precedence.irrefl {before : κ → κ → Bool} (strict : Precedence before) (key : κ) :
    before key key = false := by
  cases same : before key key with
  | false => rfl
  | true => rw [← strict.asymm same, same]

/-- Items in the order in which they are served. -/
@[ext] structure Priority (key : α → κ) (before : κ → κ → Bool) where
  /-- The items, first one first. -/
  items : List α
  /-- No item stands behind one that it precedes. -/
  sorted : items.Pairwise fun earlier later => before (key later) (key earlier) = false

namespace Priority

variable {key : α → κ} {before : κ → κ → Bool} {line : Priority key before} {item : α} {k top : κ}

/-- The empty line. -/
def empty : Priority key before := ⟨[], .nil⟩

/-- The item that is served first. -/
def first? (line : Priority key before) : Option α := line.items.head?

/-- The items at a key, first come first. -/
def queue [DecidableEq κ] (line : Priority key before) (k : κ) : List α :=
  line.items.filter fun item => key item = k

/-- An item is placed before the first one that it precedes. -/
def place (key : α → κ) (before : κ → κ → Bool) (item : α) (items : List α) : List α :=
  items.orderedInsert (fun one other => before (key one) (key other) = true) item

/-- Placing an item keeps the order. -/
theorem place_sorted (strict : Precedence before) (item : α) {items : List α}
    (sorted : items.Pairwise fun earlier later => before (key later) (key earlier) = false) :
    (place key before item items).Pairwise
      fun earlier later => before (key later) (key earlier) = false := by
  induction items with
  | nil => exact List.pairwise_singleton _ _
  | cons other rest ih =>
    obtain ⟨behind, sorted⟩ := List.pairwise_cons.mp sorted
    rw [place, List.orderedInsert_cons]
    split
    · rename_i precedes
      refine List.pairwise_cons.mpr ⟨fun later member => ?_, List.pairwise_cons.mpr ⟨behind, sorted⟩⟩
      rcases List.mem_cons.mp member with rfl | member
      · exact strict.asymm precedes
      · by_contra ahead
        have jumps := strict.trans (Bool.not_eq_false _ ▸ ahead) precedes
        rw [behind later member] at jumps
        contradiction
    · rename_i follows
      refine List.pairwise_cons.mpr ⟨fun later member => ?_, ih sorted⟩
      rcases (List.mem_orderedInsert _).mp member with rfl | member
      · exact Bool.not_eq_true _ ▸ follows
      · exact behind later member

/-- Place an item in a line. -/
def insert (strict : Precedence before) (line : Priority key before) (item : α) :
    Priority key before :=
  ⟨place key before item line.items, place_sorted strict item line.sorted⟩

/-- Keep the items that pass a test. -/
def keep (line : Priority key before) (test : α → Bool) : Priority key before :=
  ⟨line.items.filter test, line.sorted.filter test⟩

/-- Change the items without moving their keys. -/
def change (line : Priority key before) (edit : α → α) (still : ∀ item, key (edit item) = key item) :
    Priority key before :=
  ⟨line.items.map edit, List.pairwise_map.mpr (by simpa only [still] using line.sorted)⟩

/-! ## The items at a key -/

section Keys

variable [DecidableEq κ]

/-- The empty line has no items at a key. -/
@[simp] theorem queue_empty : (empty : Priority key before).queue k = [] := rfl

/-- The items at a key are those of the line with the key. -/
theorem mem_queue : item ∈ line.queue k ↔ item ∈ line.items ∧ key item = k := by
  simp [Priority.queue]

/-- An item is the last one at its key once it is placed, and no other key is affected. -/
theorem queue_insert (strict : Precedence before) :
    (line.insert strict item).queue k =
      if key item = k then line.queue k ++ [item] else line.queue k := by
  obtain ⟨items, sorted⟩ := line
  simp only [Priority.queue, insert, place]
  induction items with
  | nil => simp [List.filter_cons]
  | cons other rest ih =>
    obtain ⟨behind, sorted⟩ := List.pairwise_cons.mp sorted
    rw [List.orderedInsert_cons]
    split
    · rename_i precedes
      by_cases same : key item = k
      · -- The items from the first one that is preceded on all have later keys.
        have none : (other :: rest).filter (fun later => decide (key later = k)) = [] := by
          refine List.filter_eq_nil_iff.mpr fun later member here => ?_
          have atKey : key later = key item := (of_decide_eq_true here).trans same.symm
          rcases List.mem_cons.mp member with rfl | member
          · rw [atKey, strict.irrefl] at precedes
            contradiction
          · have ahead := behind later member
            rw [atKey, precedes] at ahead
            contradiction
        rw [if_pos same, List.filter_cons, none]
        simp [same]
      · simp [List.filter_cons, same]
    · rw [List.filter_cons, List.filter_cons, ih sorted]
      split <;> split <;> simp

/-- A test keeps the items at a key that pass it. -/
theorem queue_keep {test : α → Bool} : (line.keep test).queue k = (line.queue k).filter test := by
  simp only [Priority.queue, keep, List.filter_filter, Bool.and_comm]

/-- A change of the items changes those at each key. -/
theorem queue_change {edit : α → α} {still : ∀ item, key (edit item) = key item} :
    (line.change edit still).queue k = (line.queue k).map edit := by
  simp only [Priority.queue, change, List.filter_map, Function.comp_def, still]

/-- A line without a first item has no items at any key. -/
theorem first?_eq_none : line.first? = none ↔ ∀ k, line.queue k = [] := by
  rw [first?, List.head?_eq_none_iff]
  constructor
  · intro empty k
    simp [Priority.queue, empty]
  · intro empty
    refine List.eq_nil_iff_forall_not_mem.mpr fun item member => ?_
    have here := mem_queue.mpr ⟨member, rfl⟩
    rw [empty (key item)] at here
    contradiction

/-- The first item of a line is the first one at the best key. -/
theorem first?_eq (strict : Precedence before) (held : line.queue top ≠ [])
    (best : ∀ k, line.queue k ≠ [] → before k top = false) :
    line.first? = (line.queue top).head? := by
  obtain ⟨items, sorted⟩ := line
  cases items with
  | nil => simp [Priority.queue] at held
  | cons item rest =>
    have listed : item ∈ (⟨item :: rest, sorted⟩ : Priority key before).queue (key item) :=
      mem_queue.mpr ⟨List.mem_cons_self, rfl⟩
    have atTop : key item = top := by
      refine strict.total (best _ (List.ne_nil_of_mem listed)) ?_
      obtain ⟨other, member⟩ := List.exists_mem_of_ne_nil _ held
      obtain ⟨inside, rfl⟩ := mem_queue.mp member
      rcases List.mem_cons.mp inside with rfl | behind
      · exact strict.irrefl _
      · exact (List.pairwise_cons.mp sorted).1 other behind
    simp [first?, Priority.queue, atTop]

/-- The items at each key determine the line. -/
theorem eq_of_queues (strict : Precedence before) {line' : Priority key before}
    (same : ∀ k, line.queue k = line'.queue k) : line = line' := by
  obtain ⟨items, sorted⟩ := line
  induction items generalizing line' with
  | nil =>
    have none : line'.first? = none := first?_eq_none.mpr fun k => (same k).symm
    exact Priority.ext (List.head?_eq_none_iff.mp none).symm
  | cons item rest ih =>
    obtain ⟨behind, sorted'⟩ := List.pairwise_cons.mp sorted
    -- The first item is the first one at the best key, which the other line has as well.
    have mine : item ∈ (⟨item :: rest, sorted⟩ : Priority key before).queue (key item) :=
      mem_queue.mpr ⟨List.mem_cons_self, rfl⟩
    have best : ∀ k, line'.queue k ≠ [] → before k (key item) = false := by
      intro k held
      rw [← same k] at held
      obtain ⟨other, member⟩ := List.exists_mem_of_ne_nil _ held
      obtain ⟨listed, rfl⟩ := mem_queue.mp member
      rcases List.mem_cons.mp listed with rfl | later
      · exact strict.irrefl _
      · exact behind other later
    have held : line'.queue (key item) ≠ [] := by
      rw [← same]
      exact List.ne_nil_of_mem mine
    have first := first?_eq strict held best
    rw [← same, Priority.queue, List.filter_cons_of_pos (by simp), List.head?_cons] at first
    obtain ⟨items', sortedOther⟩ := line'
    obtain ⟨rest', rfl⟩ : ∃ rest', items' = item :: rest' :=
      List.head?_eq_some_iff.mp first
    have tails : ∀ k, (⟨rest, sorted'⟩ : Priority key before).queue k =
        (⟨rest', (List.pairwise_cons.mp sortedOther).2⟩ : Priority key before).queue k := by
      intro k
      have whole := same k
      rw [Priority.queue, Priority.queue, List.filter_cons, List.filter_cons] at whole
      split at whole
      · exact List.tail_eq_of_cons_eq whole
      · exact whole
    have items : rest = rest' := congrArg Priority.items (ih sorted' tails)
    subst items
    rfl

/-- Dropping an item that has just been placed, and no other one, gives the line back. -/
theorem keep_insert (strict : Precedence before) {test : α → Bool} (drops : test item = false)
    (keeps : ∀ other ∈ line.items, test other = true) : (line.insert strict item).keep test = line := by
  apply eq_of_queues strict
  intro k
  have kept : (line.queue k).filter test = line.queue k :=
    List.filter_eq_self.mpr fun other member => keeps other (mem_queue.mp member).1
  rw [queue_keep, queue_insert]
  split
  · rw [List.filter_append, kept, List.filter_cons_of_neg (by simp [drops]), List.filter_nil,
      List.append_nil]
  · exact kept

/-- A line whose items at each key are distinct repeats no item. -/
theorem nodup_of_queues (distinct : ∀ k, (line.queue k).Nodup) : line.items.Nodup := by
  classical
  refine List.nodup_iff_count_le_one.mpr fun item => ?_
  have once := List.nodup_iff_count_le_one.mp (distinct (key item)) item
  rwa [Priority.queue, List.count_filter (by simp)] at once

end Keys

/-- Placing a renamed item among renamed ones, as far as the names respect which key precedes
which. -/
theorem map_place {key' : β → μ} {before' : μ → μ → Bool} {name : α → β} {items : List α}
    (respects : ∀ other ∈ items,
      before' (key' (name item)) (key' (name other)) = before (key item) (key other) ∧
        before' (key' (name other)) (key' (name item)) = before (key other) (key item)) :
    (place key before item items).map name = place key' before' (name item) (items.map name) := by
  refine List.map_orderedInsert (fun one other => before (key one) (key other) = true)
    (fun one other => before' (key' one) (key' other) = true) name items item ?_ ?_
  · intro other member
    rw [(respects other member).2]
  · intro other member
    rw [(respects other member).1]

end Priority

end MatchX.Support
