import MatchX.Book.Liquidity
import MatchX.Book.RecenterInv
import MatchX.Support.Runs

/-!
# Best prices over runs of book operations

A run of insertions, removals, reductions and recenterings from a new book keeps the cached
best prices exact exactly as long as no removal of it hides a better price.
-/

namespace MatchX

open MatchX.Support

variable {config : InstrumentConfig} {capacity : UInt32}

/-- An operation on a book and its arena. -/
inductive BookOp where
  /-- `insert_order` -/
  | insert (id : OrderId) (side : Side) (price qty : UInt64) (orderType : OrderType)
      (visibleQty : Option UInt64) (stpGroup : Option UInt32)
  /-- `remove_order` -/
  | remove (index : ArenaIndex)
  /-- `reduce_order_qty` -/
  | reduce (index : ArenaIndex) (delta : UInt64)
  /-- `force_recenter` -/
  | recenter (newBase : UInt64)

/-- A book with its arena. -/
abbrev BookState (ticks : UInt32) := OrderBook ticks × Arena

namespace BookOp

variable {ticks : UInt32}

/-- Perform an operation. -/
def apply (state : BookState ticks) : BookOp → Except Fault (BookState ticks)
  | .insert id side price qty orderType visibleQty stpGroup =>
    (state.1.insertOrder state.2 id side price qty orderType visibleQty stpGroup).map Prod.snd
  | .remove index => (state.1.removeOrder state.2 index).map Prod.snd
  | .reduce index delta => state.1.reduceOrderQty state.2 index delta
  | .recenter newBase => (state.1.forceRecenter newBase).map fun book => (book, state.2)

/-- The uses of an operation that its callers promise: a positive quantity with which the total
fits in a `u64`, a resting order, a reduction below what remains, a window end in a `u64`. -/
def Legal (state : BookState ticks) : BookOp → Prop
  | .insert _ _ _ qty _ _ _ => 0 < qty ∧ state.2.totalResting + qty.toNat < 2 ^ 64
  | .remove index => (state.2.find index).isSome = true
  | .reduce index delta =>
    (state.2.find index).any (fun order => decide (delta < order.remaining)) = true
  | .recenter newBase => newBase.toNat + ticks.toNat < 2 ^ 64

instance (state : BookState ticks) (op : BookOp) : Decidable (op.Legal state) := by
  cases op <;> unfold Legal <;> infer_instance

end BookOp

/-- The operation hides no better price. -/
def BookOp.Keeps {ticks : UInt32} (state : BookState ticks) : BookOp → Prop
  | .remove index => ¬HidesBetter state.1 state.2 index
  | _ => True

/-- The window ends within the prices. -/
def OrderBook.WindowFits {ticks : UInt32} (book : OrderBook ticks) : Prop :=
  book.denseBasePrice.toNat + ticks.toNat < 2 ^ 64

/-- A book reached from a new one, whose window ends within the prices, by legal operations
that meet a condition. -/
def BookRun (config : InstrumentConfig) (capacity : UInt32)
    (allowed : BookState config.maxTicks → BookOp → Prop) : BookState config.maxTicks → Prop :=
  Reached
    (fun state => state = (OrderBook.new config, Arena.new capacity) ∧ state.1.WindowFits)
    BookOp.apply fun state op => op.Legal state ∧ allowed state op

/-- What every legal operation keeps: some queues are represented, the best prices are those of
levels with orders, and the window ends within the prices. -/
structure BookInv {ticks : UInt32} (state : BookState ticks) (queues : Queues) : Prop where
  /-- The book agrees with the queues. -/
  rep : Represents state.1 state.2 queues
  /-- The best prices are those of levels with orders. -/
  tracks : Tracks state.1 queues
  /-- The window ends within the prices. -/
  fits : state.1.WindowFits

section Step

variable {ticks : UInt32} {state following : BookState ticks} {queues : Queues}

/-- A removal keeps the invariant, and keeps the best prices exact unless it hides a better
price, when it leaves them inexact. -/
theorem remove_step {index : ArenaIndex} (inv : BookInv state queues)
    (completed : BookOp.apply state (.remove index) = .ok following) :
    (∃ queues', BookInv following queues') ∧
      (¬HidesBetter state.1 state.2 index → BestExact state.1 state.2 →
        BestExact following.1 following.2) ∧
      (HidesBetter state.1 state.2 index → ¬BestExact following.1 following.2) := by
  simp only [BookOp.apply] at completed
  cases removal : state.1.removeOrder state.2 index with
  | error fault =>
    rw [removal] at completed
    contradiction
  | ok result =>
    obtain ⟨place, book', arena'⟩ := result
    rw [removal] at completed
    obtain rfl := Except.ok.inj completed
    obtain ⟨order, found⟩ := removeOrder_found removal
    obtain ⟨-, removed⟩ := removeOrder_spec inv.rep found removal
    refine ⟨⟨_, removed.represents, removed.tracks inv.tracks, ?_⟩,
      removed.bestExact found inv.rep.toQueued, removed.not_bestExact inv.rep.toQueued found⟩
    change book'.denseBasePrice.toNat + ticks.toNat < 2 ^ 64
    rw [removed.base]
    exact inv.fits

/-- An insertion keeps the invariant and exact best prices. -/
theorem insert_step {id : OrderId} {side : Side} {price qty : UInt64} {orderType : OrderType}
    {visibleQty : Option UInt64} {stpGroup : Option UInt32} (inv : BookInv state queues)
    (completed : BookOp.apply state (.insert id side price qty orderType visibleQty stpGroup) =
      .ok following) :
    (∃ queues', BookInv following queues') ∧
      (BestExact state.1 state.2 → BestExact following.1 following.2) := by
  simp only [BookOp.apply] at completed
  rcases insertOrder_spec inv.rep id side price qty orderType visibleQty stpGroup with
    ⟨refused, -⟩ | ⟨index, book', arena', accepted, -, inserted⟩
  · rw [refused] at completed
    obtain rfl := Except.ok.inj completed
    exact ⟨⟨queues, inv⟩, fun exact => exact⟩
  · rw [accepted] at completed
    obtain rfl := Except.ok.inj completed
    refine ⟨⟨_, inserted.represents, inserted.tracks inv.tracks, ?_⟩,
      inserted.bestExact inv.rep.toQueued⟩
    change book'.denseBasePrice.toNat + ticks.toNat < 2 ^ 64
    rw [inserted.base]
    exact inv.fits

/-- A legal operation other than a removal keeps the invariant and exact best prices. -/
theorem other_step {op : BookOp} (inv : BookInv state queues) (legal : op.Legal state)
    (other : ∀ index, op ≠ .remove index) (completed : op.apply state = .ok following) :
    (∃ queues', BookInv following queues') ∧
      (BestExact state.1 state.2 → BestExact following.1 following.2) := by
  cases op with
  | remove index => exact absurd rfl (other index)
  | insert id side price qty orderType visibleQty stpGroup => exact insert_step inv completed
  | reduce index delta =>
    simp only [BookOp.apply] at completed
    obtain ⟨order, found, below⟩ := (Option.any_eq_true _ _).mp legal
    have bound : delta ≤ order.remaining := UInt64.le_of_lt (of_decide_eq_true below)
    obtain ⟨taken, -⟩ := reduceOrderQty_spec inv.rep found bound completed
    refine ⟨⟨_, taken.represents, taken.tracks inv.tracks, ?_⟩,
      taken.bestExact inv.rep.toQueued⟩
    change following.1.denseBasePrice.toNat + ticks.toNat < 2 ^ 64
    rw [taken.base]
    exact inv.fits
  | recenter newBase =>
    simp only [BookOp.apply] at completed
    obtain ⟨book', moved, rep, best, base, -⟩ :=
      forceRecenter_spec inv.rep inv.tracks (vacantPast_of_fits inv.fits) legal
    rw [moved] at completed
    obtain rfl := Except.ok.inj completed
    refine ⟨⟨queues, rep, ⟨fun side none => inv.tracks.empty side (best side ▸ none),
      fun side price held => inv.tracks.held side price (best side ▸ held)⟩, ?_⟩,
      fun exact side => ?_⟩
    · change book'.denseBasePrice.toNat + ticks.toNat < 2 ^ 64
      rw [base]
      exact legal
    · change IsBest state.2 side (book'.best side)
      rw [best]
      exact exact side

/-- A legal operation keeps the invariant, and keeps exact best prices exact when it hides no
better price. -/
theorem BookOp.apply_keeps {op : BookOp} (inv : BookInv state queues) (legal : op.Legal state)
    (completed : op.apply state = .ok following) :
    (∃ queues', BookInv following queues') ∧
      (op.Keeps state → BestExact state.1 state.2 → BestExact following.1 following.2) := by
  cases op with
  | remove index => exact ⟨(remove_step inv completed).1, (remove_step inv completed).2.1⟩
  | insert | reduce | recenter =>
    obtain ⟨kept, exact⟩ := other_step inv legal (fun _ same => by contradiction) completed
    exact ⟨kept, fun _ => exact⟩

end Step

/-- Every book of a run satisfies the invariant. -/
theorem BookRun.inv {allowed : BookState config.maxTicks → BookOp → Prop}
    {state : BookState config.maxTicks} (run : BookRun config capacity allowed state) :
    ∃ queues, BookInv state queues := by
  refine Reached.invariant ?_ ?_ run
  · rintro state ⟨rfl, fits⟩
    exact ⟨_, represents_new config capacity, tracks_new config, fits⟩
  · rintro state op following ⟨queues, inv⟩ ⟨legal, -⟩ completed
    exact (BookOp.apply_keeps inv legal completed).1

/-- The cached best prices of a run are exact as long as no removal hides a better price, and a
removal that hides one leaves them inexact. -/
theorem best_price_exact_iff_none_hidden (config : InstrumentConfig) (capacity : UInt32) :
    (∀ state, BookRun config capacity (fun state op => op.Keeps state) state →
      BestExact state.1 state.2) ∧
    ∀ state index following, BookRun config capacity (fun _ _ => True) state →
      BookOp.apply state (.remove index) = .ok following →
      HidesBetter state.1 state.2 index → ¬BestExact following.1 following.2 := by
  constructor
  · intro state run
    have both : (∃ queues, BookInv state queues) ∧ BestExact state.1 state.2 := by
      refine Reached.invariant ?_ ?_ run
      · rintro state ⟨rfl, fits⟩
        refine ⟨⟨_, represents_new config capacity, tracks_new config, fits⟩, ?_⟩
        refine (tracks_new config).bestExact (Queued.new capacity) fun side top best => ?_
        exact absurd rfl ((tracks_new config).held side top best)
      · rintro state op following ⟨⟨queues, inv⟩, exact⟩ ⟨legal, keeps⟩ completed
        obtain ⟨kept, still⟩ := BookOp.apply_keeps inv legal completed
        exact ⟨kept, still keeps exact⟩
    exact both.2
  · intro state index following run completed hides
    obtain ⟨queues, inv⟩ := run.inv
    exact (remove_step inv completed).2.2 hides

/-- A plain limit bid. -/
def BookOp.bid (id : OrderId) (price : UInt64) : BookOp := .insert id .bid price 10 .limit none none

/-- Legal operations, removals only of orders that do not rest at the cached best price. -/
def BookOp.plain {ticks : UInt32} (state : BookState ticks) (op : BookOp) : Bool :=
  decide (op.Legal state) && match op with
    | .remove index =>
      (state.2.find index).all fun order => state.1.best order.side != some order.price
    | _ => true

/-- Such operations hide no better price. -/
theorem BookOp.plain_keeps {ticks : UInt32} {state : BookState ticks} {op : BookOp}
    (plain : op.plain state = true) : op.Legal state ∧ op.Keeps state := by
  cases op with
  | remove index =>
    simp only [BookOp.plain, Bool.and_eq_true, decide_eq_true_iff] at plain
    refine ⟨plain.1, ?_⟩
    rintro ⟨order, found, best, -⟩
    have apart := plain.2
    simp [found, best] at apart
  | insert | reduce | recenter =>
    simp only [BookOp.plain, Bool.and_true, decide_eq_true_iff] at plain
    exact ⟨plain, trivial⟩

/-- Removing a bid that is not the best one keeps the best bid exact. -/
theorem best_price_exact_after_removal :
    ∃ state, BookRun (smallConfig .cancelNewest) 8 (fun state op => op.Keeps state) state ∧
      BestExact state.1 state.2 ∧ (state.1.bestBid == some 3) = true := by
  obtain ⟨state, run, best⟩ : ∃ state,
      BookRun (smallConfig .cancelNewest) 8 (fun state op => op.Keeps state) state ∧
        (state.1.bestBid == some 3) = true :=
    Reached.exists_checkedRun BookOp.plain _ (fun _ _ => BookOp.plain_keeps)
      ⟨rfl, by unfold OrderBook.WindowFits; decide⟩ [.bid 1 2, .bid 2 3, .remove 0]
      (by decide +kernel)
  exact ⟨state, run, (best_price_exact_iff_none_hidden _ _).1 state run, best⟩

/-- A cancelled bid above the window leaves a bid inside it as the best one, while another bid
above it still rests: bids at 10, 20 and 2 with the window from 0 to 3, the second cancelled. -/
theorem best_price_inexact_after_removal :
    ¬∀ state, BookRun (smallConfig .cancelNewest) 8 (fun _ _ => True) state →
      BestExact state.1 state.2 := by
  intro always
  obtain ⟨state, run, shown⟩ : ∃ state,
      BookRun (smallConfig .cancelNewest) 8 (fun _ _ => True) state ∧
        (state.1.best .bid == some 2 && (state.2.find 0).any fun order =>
          order.side == .bid && order.price == 10) = true :=
    Reached.exists_checkedRun (fun state op => decide (BookOp.Legal state op)) _
      (fun _ _ legal => ⟨of_decide_eq_true legal, trivial⟩)
      ⟨rfl, by unfold OrderBook.WindowFits; decide⟩ [.bid 1 10, .bid 2 20, .bid 3 2, .remove 1]
      (by decide +kernel)
  rw [Bool.and_eq_true, beq_iff_eq] at shown
  obtain ⟨best, held⟩ := shown
  obtain ⟨order, found, place⟩ := (Option.any_eq_true _ _).mp held
  rw [Bool.and_eq_true, beq_iff_eq, beq_iff_eq] at place
  have exact := always state run .bid
  rw [best] at exact
  have improves := exact.2 10 ⟨0, order, found, place.1, place.2⟩
  simp [OrderBook.better] at improves

end MatchX
