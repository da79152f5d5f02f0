import MatchX.Book.Visiting
import MatchX.Engine.Events

/-!
# A sweep over its makers

What a sweep does to the list of the makers ahead of it. An iteration of the matching loop
removes the first maker or fills a slice of it, and leaves the makers behind it: `Turn` lists
what an iteration that the loop goes on after can do with the list, `Close` what the last one
can. Both speak of a list of orders and a quantity only, with the number of events of each.
-/

namespace MatchX

open MatchX.Support

variable {mode : StpMode} {taker : Taker}

namespace MatchingEngine

/-- An iteration that the sweep goes on after: the makers ahead and the taker's remaining quantity
before and after it, and the number of its events. -/
inductive Turn (mode : StpMode) (taker : Taker) :
    List Order → UInt64 → List Order → UInt64 → Nat → Prop
  /-- A maker with nothing remaining is removed. -/
  | stale {maker rest remaining} (left : remaining ≠ 0) (spent : maker.remaining = 0) :
    Turn mode taker (maker :: rest) remaining rest remaining 0
  /-- A maker of the taker's group is cancelled. -/
  | oldest {maker rest remaining} (left : remaining ≠ 0) (live : maker.remaining ≠ 0)
      (group : sameGroup taker maker = true) (cancels : mode = .cancelOldest) :
    Turn mode taker (maker :: rest) remaining rest remaining 2
  /-- A slice of a maker is filled. -/
  | part {maker rest remaining} (left : remaining ≠ 0) (apart : sameGroup taker maker = false)
      (part : min remaining maker.matchableQty < maker.remaining) :
    Turn mode taker (maker :: rest) remaining
      (maker.fill (min remaining maker.matchableQty) :: rest)
      (remaining - min remaining maker.matchableQty) 2
  /-- A maker is filled and removed. -/
  | whole {maker rest remaining} (left : remaining ≠ 0) (live : maker.remaining ≠ 0)
      (apart : sameGroup taker maker = false)
      (whole : min remaining maker.matchableQty = maker.remaining) :
    Turn mode taker (maker :: rest) remaining rest (remaining - maker.remaining) 2

/-- The last iteration of a sweep: the makers ahead and the taker's remaining quantity before it,
that quantity after it, whether the incoming order is to be cancelled, and the number of its
events. -/
inductive Close (mode : StpMode) (taker : Taker) :
    List Order → UInt64 → UInt64 → Bool → Nat → Prop
  /-- The taker is filled. -/
  | exhausted {makers} : Close mode taker makers 0 0 false 0
  /-- No maker is ahead. -/
  | unmatched {remaining} (left : remaining ≠ 0) : Close mode taker [] remaining remaining false 0
  /-- A maker of the taker's group stops the taker. -/
  | newest {maker rest remaining} (left : remaining ≠ 0) (live : maker.remaining ≠ 0)
      (group : sameGroup taker maker = true) (stops : mode = .cancelNewest) :
    Close mode taker (maker :: rest) remaining remaining false 0
  /-- A maker of the taker's group is cancelled with the taker. -/
  | both {maker rest remaining} (left : remaining ≠ 0) (live : maker.remaining ≠ 0)
      (group : sameGroup taker maker = true) (cancels : mode = .cancelBoth) :
    Close mode taker (maker :: rest) remaining remaining true 2
  /-- A maker of the taker's group and the taker are lowered by their overlap. -/
  | decrement {maker rest remaining} (left : remaining ≠ 0) (live : maker.remaining ≠ 0)
      (group : sameGroup taker maker = true) (lowers : mode = .decrementAndCancel) :
    Close mode taker (maker :: rest) remaining (remaining - min remaining maker.remaining) true 1

/-! ## The makers of an engine -/

variable {config : InstrumentConfig} {engine : MatchingEngine config} {queues : Queues}
  {sweep start following : Sweep config} {result : SweepResult config} {price : UInt64}
  {index : ArenaIndex} {maker : Order}

/-- The makers that a taker meets, in order, without links. -/
def makersFor (taker : Taker) (engine : MatchingEngine config) : List Order :=
  engine.book.makersAhead engine.arena taker.side.opposite
    (isPriceAcceptable taker.side taker.price)

/-- The makers ahead depend on the book and the arena only. -/
theorem makersFor_congr {engine' : MatchingEngine config} (book : engine'.book = engine.book)
    (arena : engine'.arena = engine.arena) : makersFor taker engine' = makersFor taker engine := by
  simp only [makersFor, book, arena]

/-- The maker in front is the first one ahead. -/
theorem Front.makersFor (front : Front taker engine queues price index maker)
    (rep : Represents engine.book engine.arena queues) :
    ∃ rest, makersFor taker engine = maker.unlinked :: rest := by
  obtain ⟨slots, ahead⟩ := rep.slotsAhead_cons (isPriceAcceptable taker.side taker.price)
    front.best front.first front.acceptable
  refine ⟨slots.filterMap engine.arena.resting, ?_⟩
  rw [MatchingEngine.makersFor, OrderBook.makersAhead, ahead,
    List.filterMap_cons_some (Arena.resting_of_find front.found)]

/-- Without an acceptable best price no maker is ahead. -/
theorem makersFor_nil (refused : ∀ price, engine.book.best taker.side.opposite = some price →
    isPriceAcceptable taker.side taker.price price = false) : makersFor taker engine = [] :=
  makersAhead_nil refused

/-- The makers ahead once the maker in front is removed. -/
theorem Front.removed {book : OrderBook config.maxTicks} {arena : Arena}
    (front : Front taker engine queues price index maker)
    (rep : Represents engine.book engine.arena queues)
    (removed : Removed engine.book engine.arena queues maker.unlinked index book arena) :
    MatchingEngine.makersFor taker engine =
      maker.unlinked :: MatchingEngine.makersFor taker (engine.withBook book arena) := by
  have ahead := removed.makersAhead rep (isPriceAcceptable taker.side taker.price)
    (by simpa [front.onSide, front.atPrice] using front.best)
    (by simpa [front.onSide, front.atPrice] using front.first)
    (by simpa [front.atPrice] using front.acceptable)
  simpa [MatchingEngine.makersFor, front.onSide] using ahead

/-- The makers ahead once a quantity is taken from the maker in front. -/
theorem Front.lowered {book : OrderBook config.maxTicks} {arena : Arena} {delta : UInt64}
    (front : Front taker engine queues price index maker)
    (rep : Represents engine.book engine.arena queues)
    (taken : Taken engine.book engine.arena queues maker.unlinked index delta book arena) :
    ∃ rest, MatchingEngine.makersFor taker engine = maker.unlinked :: rest ∧
      MatchingEngine.makersFor taker (engine.withBook book arena) =
        maker.unlinked.fill delta :: rest := by
  have ahead := taken.makersAhead rep (isPriceAcceptable taker.side taker.price)
    (by simpa [front.onSide, front.atPrice] using front.best)
    (by simpa [front.onSide, front.atPrice] using front.first)
    (by simpa [front.atPrice] using front.acceptable)
  simpa [MatchingEngine.makersFor, front.onSide] using ahead

/-- The makers ahead once the maker in front is filled and removed. -/
theorem Front.finished {book book' : OrderBook config.maxTicks} {arena arena' : Arena}
    (front : Front taker engine queues price index maker)
    (rep : Represents engine.book engine.arena queues)
    (taken : Taken engine.book engine.arena queues maker.unlinked index maker.remaining book arena)
    (removed : Removed book arena queues (maker.fill maker.remaining).unlinked index book'
      arena') :
    MatchingEngine.makersFor taker engine =
      maker.unlinked :: MatchingEngine.makersFor taker (engine.withBook book' arena') := by
  obtain ⟨rest, ahead, ahead'⟩ := front.lowered rep taken
  obtain ⟨stored, front', same⟩ := front.taken taken
  rw [← same] at ahead'
  rw [Order.fill_unlinked, ← same] at removed
  have behind := front'.removed taken.represents removed
  rw [ahead'] at behind
  obtain ⟨-, rfl⟩ := List.cons.inj behind
  exact ahead

/-- An iteration that the sweep goes on after takes a turn with the makers ahead. When it cancels
none of them, the turn is one in every mode. -/
theorem Iteration.turn_in (mode : StpMode) (sound : sweep.engine.Sound queues)
    (iteration : Iteration taker queues sweep (.next following))
    (agrees : mode = config.stpMode ∨
      ∀ id left, .orderCancelled id left ∉ emittedSince sweep.engine following.engine) :
    ∃ events, Turn mode taker (makersFor taker sweep.engine) sweep.remaining
        (makersFor taker following.engine) following.remaining events ∧
      following.engine.eventBuf.length = sweep.engine.eventBuf.length + events := by
  cases iteration with
  | stale left front spent removed =>
    rw [front.removed sound.rep removed]
    exact ⟨0, .stale left spent, rfl⟩
  | @oldest price index maker book arena left front live group cancels removed =>
    rw [front.removed sound.rep removed]
    rcases agrees with rfl | quiet
    · exact ⟨2, .oldest left live group cancels, by simp [emitLevel, emit, withBook]⟩
    · exact absurd (by simp [emittedSince]) (quiet maker.id maker.remaining)
  | @fillPart price index maker book arena left front apart part taken =>
    obtain ⟨rest, ahead, ahead'⟩ := front.lowered sound.rep taken
    have turn : Turn mode taker (maker.unlinked :: rest) sweep.remaining
        (maker.unlinked.fill (min sweep.remaining maker.matchableQty) :: rest)
        (sweep.remaining - min sweep.remaining maker.matchableQty) 2 := .part left apart part
    rw [← ahead, ← ahead'] at turn
    exact ⟨2, turn, by simp [emitLevel, emit, withBook, traded]⟩
  | @fillAll price index maker book arena book' arena' left front live apart whole taken _ removed =>
    rw [front.finished sound.rep taken removed]
    exact ⟨2, .whole left live apart whole, by simp [emitLevel, emit, withBook, traded]⟩

/-- An iteration that the sweep goes on after takes a turn with the makers ahead. -/
theorem Iteration.turn (sound : sweep.engine.Sound queues)
    (iteration : Iteration taker queues sweep (.next following)) :
    ∃ events, Turn config.stpMode taker (makersFor taker sweep.engine) sweep.remaining
        (makersFor taker following.engine) following.remaining events ∧
      following.engine.eventBuf.length = sweep.engine.eventBuf.length + events :=
  iteration.turn_in _ sound (.inl rfl)

/-- The last iteration of a sweep closes it with the makers ahead. -/
theorem Iteration.close (sound : sweep.engine.Sound queues)
    (iteration : Iteration taker queues sweep (.done result)) :
    ∃ events, Close config.stpMode taker (makersFor taker sweep.engine) sweep.remaining
        result.remaining result.cancelIncoming events ∧
      result.engine.eventBuf.length = sweep.engine.eventBuf.length + events := by
  cases iteration with
  | exhausted nothing =>
    rw [nothing]
    exact ⟨0, .exhausted, rfl⟩
  | unmatched left refused =>
    rw [makersFor_nil refused]
    exact ⟨0, .unmatched left, rfl⟩
  | newest left front live group mode =>
    obtain ⟨rest, ahead⟩ := front.makersFor sound.rep
    rw [ahead]
    exact ⟨0, .newest left live group mode, rfl⟩
  | both left front live group mode =>
    obtain ⟨rest, ahead⟩ := front.makersFor sound.rep
    rw [ahead]
    exact ⟨2, .both left live group mode, by simp [emitLevel, emit, withBook]⟩
  | @decrementAll price index maker book arena left front live group mode whole =>
    obtain ⟨rest, ahead⟩ := front.makersFor sound.rep
    have close : Close config.stpMode taker (maker.unlinked :: rest) sweep.remaining
        (sweep.remaining - min sweep.remaining maker.remaining) true 1 :=
      .decrement left live group mode
    rw [← ahead, min_of_le whole] at close
    exact ⟨1, close, by simp [emitLevel, emit, withBook]⟩
  | @decrementPart price index maker book arena left front group mode part =>
    obtain ⟨rest, ahead⟩ := front.makersFor sound.rep
    have live : maker.remaining ≠ 0 := word_ne_zero_of_lt part
    have close : Close config.stpMode taker (maker.unlinked :: rest) sweep.remaining
        (sweep.remaining - min sweep.remaining maker.remaining) true 1 :=
      .decrement left live group mode
    rw [← ahead, Std.min_eq_if, if_pos (UInt64.le_of_lt part)] at close
    exact ⟨1, close, by simp [emitLevel, emit, withBook]⟩

/-- The makers ahead are not overfilled. -/
theorem makersFor_sound (rep : Represents engine.book engine.arena queues) :
    ∀ maker ∈ makersFor taker engine, maker.filled ≤ maker.quantity := by
  intro maker ahead
  obtain ⟨i, -, rests⟩ := List.mem_filterMap.mp ahead
  exact rep.sound rests

/-! ## The quantity a taker can trade -/

/-- The quantity that a taker can fill against makers met in order: that of those that are not of
its group, as far as the first one of its group that stops it. -/
def tradable (mode : StpMode) (taker : Taker) : List Order → Nat
  | [] => 0
  | maker :: rest =>
    if maker.remaining = 0 then tradable mode taker rest
    else if sameGroup taker maker then
      if mode = .cancelOldest then tradable mode taker rest else 0
    else maker.remaining.toNat + tradable mode taker rest

/-- A turn takes what it fills from what the taker can trade. -/
theorem Turn.tradable {makers makers' : List Order} {remaining remaining' : UInt64} {events : Nat}
    (sound : ∀ maker ∈ makers, maker.filled ≤ maker.quantity)
    (turn : Turn mode taker makers remaining makers' remaining' events) :
    MatchingEngine.tradable mode taker makers + remaining'.toNat =
      MatchingEngine.tradable mode taker makers' + remaining.toNat := by
  cases turn with
  | stale left spent => simp [MatchingEngine.tradable, spent]
  | oldest left live group cancels => simp [MatchingEngine.tradable, live, group, cancels]
  | @part maker rest _ left apart part =>
    have proper := sound maker List.mem_cons_self
    have bound := UInt64.le_of_lt part
    have within : min remaining maker.matchableQty ≤ remaining := Std.min_le_left
    obtain ⟨live, less, still⟩ := fill_part proper part
    have apart' : sameGroup taker (maker.fill (min remaining maker.matchableQty)) = false := apart
    have less' := UInt64.le_iff_toNat_le.mp bound
    have within' := UInt64.le_iff_toNat_le.mp within
    simp only [MatchingEngine.tradable, if_neg live, if_neg still, apart, apart',
      Bool.false_eq_true, if_false]
    rw [less, UInt64.toNat_sub_of_le _ _ within, UInt64.toNat_sub_of_le _ _ bound]
    omega
  | @whole maker rest _ left live apart whole =>
    have within : maker.remaining ≤ remaining := whole ▸ Std.min_le_left
    have bound := UInt64.le_iff_toNat_le.mp within
    simp only [MatchingEngine.tradable, if_neg live, apart, Bool.false_eq_true, if_false,
      UInt64.toNat_sub_of_le _ _ within]
    omega

/-- A sweep ends when the taker is filled or can trade nothing more. -/
theorem Close.tradable {makers : List Order} {remaining remaining' : UInt64} {cancel : Bool}
    {events : Nat} (close : Close mode taker makers remaining remaining' cancel events) :
    remaining = 0 ∨ MatchingEngine.tradable mode taker makers = 0 := by
  cases close with
  | exhausted => exact .inl rfl
  | unmatched => exact .inr rfl
  | newest left live group stops => exact .inr (by simp [MatchingEngine.tradable, live, group, stops])
  | both left live group stops => exact .inr (by simp [MatchingEngine.tradable, live, group, stops])
  | decrement left live group stops =>
    exact .inr (by simp [MatchingEngine.tradable, live, group, stops])

/-- What a sweep fills so far and what it can still trade is what it could trade. As long as it
cancels no maker this is so in every mode. -/
theorem visits_tradable_in (mode : StpMode) (sound : start.engine.Sound queues)
    (visits : Visits (matchStep taker) start sweep)
    (agrees : mode = config.stpMode ∨
      ∀ id left, .orderCancelled id left ∉ emittedSince start.engine sweep.engine) :
    tradable mode taker (makersFor taker start.engine) + sweep.remaining.toNat =
      tradable mode taker (makersFor taker sweep.engine) + start.remaining.toNat := by
  induction visits with
  | refl => rfl
  | @tail sweep following seen step ih =>
    obtain ⟨queues', sound'⟩ := sound_of_visits sound seen
    have iteration := matchStep_cases sound' step
    obtain ⟨before, -⟩ := visits_emitted (fun _ => True) sound (fun _ _ _ _ _ _ => trivial) seen
    have further : Extends sweep.engine following.engine := iteration.extends
    rw [emittedSince_trans before further] at agrees
    obtain ⟨events, turn, -⟩ := iteration.turn_in mode sound' (agrees.imp_right
      fun quiet id left member => quiet id left (List.mem_append_right _ member))
    have early := ih (agrees.imp_right
      fun quiet id left member => quiet id left (List.mem_append_left _ member))
    have taken := turn.tradable (makersFor_sound sound'.rep)
    omega

/-- What a sweep fills so far and what it can still trade is what it could trade. -/
theorem visits_tradable (sound : start.engine.Sound queues)
    (visits : Visits (matchStep taker) start sweep) :
    tradable config.stpMode taker (makersFor taker start.engine) + sweep.remaining.toNat =
      tradable config.stpMode taker (makersFor taker sweep.engine) + start.remaining.toNat :=
  visits_tradable_in _ sound visits (.inl rfl)

/-- The last iteration of a sweep fills nothing. -/
theorem Iteration.takerFills_done {id : OrderId}
    (iteration : Iteration taker queues sweep (.done result)) :
    takerFills id (emittedSince sweep.engine result.engine) = 0 := by
  cases iteration <;> simp [emittedSince, filledBy]

/-- A taker fills the smaller of its quantity and what it can trade. -/
theorem swept_fills {qty : UInt64} (sound : engine.Sound queues)
    (swept : engine.matchAgainstBook taker qty = .ok result) :
    takerFills taker.id (emittedSince engine result.engine) =
      min qty.toNat (tradable config.stpMode taker (makersFor taker engine)) := by
  obtain ⟨last, visits, exit⟩ := loop_exit swept
  have begins : (⟨engine, qty⟩ : Sweep config).engine.Sound queues := sound
  have spent := visits_tradable begins visits
  obtain ⟨reports, balance⟩ : Extends engine last.engine ∧
      takerFills taker.id (emittedSince engine last.engine) + last.remaining.toNat = qty.toNat :=
    visits_balance begins visits
  obtain ⟨queues', sound'⟩ := sound_of_visits begins visits
  have iteration := matchStep_cases sound' exit
  have further : Extends last.engine result.engine := iteration.extends
  obtain ⟨events, close, -⟩ := iteration.close sound'
  rw [emittedSince_trans reports further, takerFills_append, iteration.takerFills_done,
    Nat.add_zero]
  dsimp only at spent
  rcases close.tradable with nothing | none
  · rw [nothing, UInt64.toNat_zero] at balance spent
    omega
  · rw [none] at spent
    omega

/-- A taker whose sweep cancels no maker fills no more than it could trade in any mode. -/
theorem swept_fills_le {qty : UInt64} (mode : StpMode) (sound : engine.Sound queues)
    (swept : engine.matchAgainstBook taker qty = .ok result)
    (quiet : ∀ id left, .orderCancelled id left ∉ emittedSince engine result.engine) :
    takerFills taker.id (emittedSince engine result.engine) ≤
      tradable mode taker (makersFor taker engine) := by
  obtain ⟨last, visits, exit⟩ := loop_exit swept
  have begins : (⟨engine, qty⟩ : Sweep config).engine.Sound queues := sound
  obtain ⟨reports, balance⟩ : Extends engine last.engine ∧
      takerFills taker.id (emittedSince engine last.engine) + last.remaining.toNat = qty.toNat :=
    visits_balance begins visits
  obtain ⟨queues', sound'⟩ := sound_of_visits begins visits
  have iteration := matchStep_cases sound' exit
  have further : Extends last.engine result.engine := iteration.extends
  rw [emittedSince_trans reports further] at quiet
  have spent := visits_tradable_in mode begins visits (.inr fun id left member =>
    quiet id left (List.mem_append_left _ member))
  dsimp only at spent
  rw [emittedSince_trans reports further, takerFills_append, iteration.takerFills_done]
  omega

end MatchingEngine

end MatchX
