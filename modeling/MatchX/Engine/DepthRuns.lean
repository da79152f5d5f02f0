import MatchX.Book.DepthExact
import MatchX.Engine.Feed

/-!
# The depth indices over runs

What the depth indices answer is what rests as long as no sweep fills a maker. A cancel, a
modification and the removals and reductions of self-trade prevention all take from the depth
what leaves the arena. A fill writes the order and the level total itself and leaves the depth
index as it was, so what it fills stays in the index for good.
-/

namespace MatchX

open MatchX.Support

namespace MatchingEngine

variable {config : InstrumentConfig} {engine engine' : MatchingEngine config} {queues : Queues}
  {taker : Taker} {sweep : Sweep config} {flow : Flow (Sweep config) (SweepResult config)}
  {command : Command} {order : NewOrder} {qty : UInt64}

/-- The next iteration fills a maker. -/
def FillsMaker (taker : Taker) (sweep : Sweep config) : Prop :=
  sweep.remaining ≠ 0 ∧ ∃ index maker, frontMaker taker sweep.engine = some (index, maker) ∧
    maker.remaining ≠ 0 ∧ sameGroup taker maker = false

/-- If the book takes an order, what then rests is a word. -/
def RestsWord (engine : MatchingEngine config) (order : NewOrder) (qty : UInt64) : Prop :=
  engine.book.lookup order.id = none → engine.arena.freeHead ≠ freeListEnd →
    engine.arena.totalResting + qty.toNat < 2 ^ 64

/-- No sweep of a call fills a maker, and what rests after each insertion is a word. -/
structure Unfilled (engine : MatchingEngine config) (command : Command) : Prop where
  /-- The sweeps fill no maker. -/
  makers : ∀ site order sweep, Sweeps engine command site order sweep →
    ¬FillsMaker (takerOf order) sweep
  /-- The insertions keep what rests a word. -/
  words : ∀ site order qty, RestsAt engine command site order qty → RestsWord site order qty

/-- An iteration that fills no maker keeps the depth indices exact. -/
theorem Iteration.depthExact (sound : sweep.engine.Sound queues)
    (iteration : Iteration taker queues sweep flow) (clear : ¬FillsMaker taker sweep)
    (exact : DepthExact sweep.engine.book sweep.engine.arena) :
    DepthExact (flowEngine flow).book (flowEngine flow).arena := by
  have slots := sound.rep.slots
  cases iteration with
  | exhausted | unmatched | newest => exact exact
  | stale _ _ _ removed => exact exact.remove slots removed
  | oldest _ _ _ _ _ removed => exact exact.remove slots removed
  | both _ _ _ _ _ removed => exact exact.remove slots removed
  | decrementAll _ _ _ _ _ _ removed => exact exact.remove slots removed
  | decrementPart _ front _ _ part taken depth =>
    obtain rfl := front.atPrice
    exact exact.take sound.rep.toQueued taken (UInt64.le_of_lt part) depth
  | fillPart left front apart part =>
    exact absurd ⟨left, _, _, front.frontMaker_eq sound.rep, word_ne_zero_of_lt part, apart⟩ clear
  | fillAll left front live apart =>
    exact absurd ⟨left, _, _, front.frontMaker_eq sound.rep, live, apart⟩ clear

/-- Resting an order keeps the depth indices exact when what then rests is a word. -/
theorem Rested.depthExact (sound : engine.Sound queues)
    (rested : Rested engine queues order qty engine') (word : RestsWord engine order qty)
    (exact : DepthExact engine.book engine.arena) : DepthExact engine'.book engine'.arena := by
  cases rested with
  | refused => exact exact
  | inserted room inserted =>
    have whole : (order.resting qty).remaining = qty := by
      simp [NewOrder.resting, Order.submitted, Order.remaining, saturatingSub]
    have total := inserted.weigh sound.rep.slots fun order => order.remaining.toNat
    rw [← Arena.totalResting_eq, ← Arena.totalResting_eq, whole] at total
    exact exact.insert sound.rep.slots inserted whole (total ▸ word inserted.unused room)

/-- A call that fills no maker and whose insertions keep what rests a word keeps the depth indices
exact. -/
theorem keepsDepthExact (clear : Unfilled engine command) :
    KeepsBook engine command DepthExact where
  removes _ _ sound _ removed exact := exact.remove sound.rep.slots removed
  iterates sweeps sound iteration exact :=
    iteration.depthExact sound (clear.makers _ _ _ sweeps) exact
  rests rests sound rested exact := rested.depthExact sound (clear.words _ _ _ rests) exact

/-- In every run whose calls fill no maker and whose insertions keep what rests a word, the book
answers about its depth what rests. -/
theorem depth_exact_unless_filled (config : InstrumentConfig) (engine : MatchingEngine config)
    (reached : Reaches config Unfilled engine) (price : UInt64) :
    (engine.book.askAvailableAtOrBelow price).toNat = engine.arena.sumResting .ask (· ≤ price) ∧
      (engine.book.bidAvailableAtOrAbove price).toNat =
        engine.arena.sumResting .bid (price ≤ ·) := by
  obtain ⟨-, exact⟩ := KeepsBook.reaches (fun _ _ => keepsDepthExact) (DepthExact.new config) reached
  exact ⟨exact.askAvailableAtOrBelow price, exact.bidAvailableAtOrAbove price⟩

/-- A command that submits its own post-only order and no stop, where what then rests is a word. -/
def lonePost (engine : MatchingEngine config) (command : Command) : Bool :=
  engine.lone command && match command with
    | .newOrder _ order => order.orderType == .postOnly &&
        decide (engine.arena.totalResting + order.qty.toNat < 2 ^ 64)
    | _ => false

/-- Such a command fills no maker and keeps what rests a word. -/
theorem unfilled_of_lonePost (passes : lonePost engine command = true) :
    Unfilled engine command := by
  unfold lonePost at passes
  rw [Bool.and_eq_true] at passes
  constructor
  · intro site order sweep sweeps
    obtain ⟨rfl, instrumentId, rfl⟩ := sweeps.submits.of_lone passes.1
    have posts := (Bool.and_eq_true _ _ ▸ passes.2).1
    exact absurd (beq_iff_eq.mp posts) sweeps.matched.1
  · intro site order qty rests
    cases rests with
    | posted submits kind apart =>
      obtain ⟨rfl, instrumentId, rfl⟩ := submits.of_lone passes.1
      exact fun _ _ => of_decide_eq_true (Bool.and_eq_true _ _ ▸ passes.2).2
    | remainder submits kind checked swept free left keeps =>
      obtain ⟨rfl, instrumentId, rfl⟩ := submits.of_lone passes.1
      have posts := (Bool.and_eq_true _ _ ▸ passes.2).1
      exact absurd (beq_iff_eq.mp posts) kind.1

/-- Asks of 10 in the window and of 5 past it are answered for together. -/
theorem depth_exact_of_two_asks :
    ∃ engine : MatchingEngine (smallConfig .cancelNewest),
      ((engine.book.askAvailableAtOrBelow 9).toNat = engine.arena.sumResting .ask (· ≤ 9) ∧
        (engine.book.bidAvailableAtOrAbove 9).toNat = engine.arena.sumResting .bid (9 ≤ ·)) ∧
      (engine.book.askAvailableAtOrBelow 9 == 15) = true := by
  obtain ⟨engine, reached, shown⟩ := Reaches.exists_run Unfilled lonePost
    (fun engine : MatchingEngine (smallConfig .cancelNewest) =>
      engine.book.askAvailableAtOrBelow 9 == 15)
    (fun _ _ => unfilled_of_lonePost) 8
    [.submit { NewOrder.gtc 1 .ask 2 10 with orderType := .postOnly },
      .submit { NewOrder.gtc 2 .ask 9 5 with orderType := .postOnly }] (by decide +kernel)
  exact ⟨engine, depth_exact_unless_filled _ engine reached 9, shown⟩

/-- Four of an ask of ten are filled; the book still answers ten where six rest. -/
theorem depth_stale_after_fill :
    ¬∀ engine : MatchingEngine (smallConfig .cancelNewest), Reachable engine →
      engine.arena.totalResting < 2 ^ 64 → ∀ price,
      (engine.book.askAvailableAtOrBelow price).toNat =
          engine.arena.sumResting .ask (· ≤ price) ∧
        (engine.book.bidAvailableAtOrAbove price).toNat =
          engine.arena.sumResting .bid (price ≤ ·) := by
  intro always
  obtain ⟨engine, reachable, shown⟩ := Reachable.exists_run
    (fun engine : MatchingEngine (smallConfig .cancelNewest) =>
      (engine.arena.totalResting == 6 && engine.arena.sumResting .ask (· ≤ 2) == 6) &&
        engine.book.askAvailableAtOrBelow 2 == 10) 8
    [.submit (.gtc 1 .ask 2 10),
      .submit { NewOrder.gtc 2 .bid 2 4 with timeInForce := .ioc }] (by decide +kernel)
  simp only [Bool.and_eq_true, beq_iff_eq] at shown
  obtain ⟨⟨total, rests⟩, answered⟩ := shown
  have answers := (always engine reachable (by rw [total]; decide) 2).1
  rw [answered, rests] at answers
  exact absurd answers (by decide)

end MatchingEngine

end MatchX
