import MatchX.Engine.Events

/-!
# The outcome of an accepted order

An order that is accepted is filled, or the rest of it is cancelled, or the rest of it is the
last order of its level, unless the book refuses to take it: a post-only order is not checked
for its id before it is accepted, and no order is checked for a free slot.
-/

namespace MatchX

open MatchX.Support

namespace MatchingEngine

variable {config : InstrumentConfig} {engine engine' site after : MatchingEngine config}
  {queues : Queues} {order : NewOrder} {taker : Taker} {start sweep : Sweep config}
  {result : SweepResult config}

/-- By how much self-trade prevention decrements an order that is matched: at the last
iteration of its sweep. -/
def stpDecrement (site : MatchingEngine config) (order : NewOrder) : Nat :=
  if order.Matched then
    match lastState (matchStep (takerOf order)) (site.arena.len.toNat + order.qty.toNat + 1)
      ⟨site.accept order, order.qty⟩ with
    | some last => (decrementAt (takerOf order) last).toNat
    | none => 0
  else 0

/-- The book indexes the id of an order as it did. -/
def NothingRests (site after : MatchingEngine config) (order : NewOrder) : Prop :=
  after.book.lookup order.id = site.book.lookup order.id

/-- The order is filled or decremented to the end. -/
def FilledUp (site after : MatchingEngine config) (order : NewOrder) : Prop :=
  takerFills order.id (emittedSince site after) + stpDecrement site order = order.qty.toNat ∧
    NothingRests site after order ∧
    ∀ left, .orderCancelled order.id left ∈ emittedSince site after → left = 0

/-- What is left of the order is cancelled. -/
def RestCancelled (site after : MatchingEngine config) (order : NewOrder) : Prop :=
  ∃ left : UInt64, left ≠ 0 ∧
    takerFills order.id (emittedSince site after) + stpDecrement site order + left.toNat =
      order.qty.toNat ∧
    .orderCancelled order.id left ∈ emittedSince site after ∧
    (∀ other, .orderCancelled order.id other ∈ emittedSince site after → other = left) ∧
    NothingRests site after order

/-- What is not filled of the order rests as the last order of its level. -/
def RestRests (site after : MatchingEngine config) (order : NewOrder) : Prop :=
  site.book.lookup order.id = none ∧ (order.Keeps ∨ order.orderType = .postOnly) ∧
    ∃ index stored, after.book.lookup order.id = some index ∧
      after.arena.find index = some stored ∧ stored.side = order.side ∧
      stored.price = order.price ∧
      takerFills order.id (emittedSince site after) + stored.remaining.toNat = order.qty.toNat ∧
      (after.book.level order.side order.price).tail = some index

/-- Exactly one of the three outcomes. -/
def DefiniteOutcome (site after : MatchingEngine config) (order : NewOrder) : Prop :=
  (FilledUp site after order ∨ RestCancelled site after order ∨ RestRests site after order) ∧
    ¬(FilledUp site after order ∧ RestCancelled site after order) ∧
    ¬(FilledUp site after order ∧ RestRests site after order) ∧
    ¬(RestCancelled site after order ∧ RestRests site after order)

/-- The book will refuse to take an order of some quantity that is accepted: a post-only order
whose id is resting already, or for which no slot is free, and an order whose remainder rests,
when no slot is free and no opposite order is acceptable, whose removal would free one. -/
def WillRefuse (site : MatchingEngine config) (order : NewOrder) : Prop :=
  order.qty ≠ 0 ∧
    ((order.orderType = .postOnly ∧
        (site.book.lookup order.id ≠ none ∨ site.arena.freeHead = freeListEnd)) ∨
      (order.Keeps ∧ site.arena.freeHead = freeListEnd ∧
        ∀ price, site.book.best order.side.opposite = some price →
          isPriceAcceptable order.side order.price price = false))

/-- No two of the outcomes occur together. -/
theorem outcomes_apart :
    ¬(FilledUp site after order ∧ RestCancelled site after order) ∧
    ¬(FilledUp site after order ∧ RestRests site after order) ∧
    ¬(RestCancelled site after order ∧ RestRests site after order) := by
  have rests : ∀ {index}, site.book.lookup order.id = none →
      after.book.lookup order.id = some index → ¬NothingRests site after order :=
    fun unused held nothing => by
      rw [NothingRests, unused, held] at nothing
      contradiction
  refine ⟨?_, ?_, ?_⟩
  · rintro ⟨⟨whole, -, -⟩, left, positive, part, -⟩
    exact positive (UInt64.toNat_inj.mp (by rw [UInt64.toNat_zero]; omega))
  · rintro ⟨⟨-, nothing, -⟩, unused, -, index, stored, held, -⟩
    exact rests unused held nothing
  · rintro ⟨⟨left, -, -, -, -, nothing⟩, unused, -, index, stored, held, -⟩
    exact rests unused held nothing

/-- An id that does not rest does not rest after the arena shrank. -/
theorem lookup_none_of_shrinks {queues' : Queues} {id : OrderId} (sound : engine.Sound queues)
    (sound' : engine'.Sound queues') (shrinks : engine.arena.Shrinks engine'.arena)
    (unused : engine.book.lookup id = none) : engine'.book.lookup id = none := by
  cases held : engine'.book.lookup id with
  | none => rfl
  | some index =>
    obtain ⟨stored, rests, named⟩ := (sound'.rep.indexed id index).mp held
    obtain ⟨before, delta, old, -, rfl⟩ := shrinks index stored rests
    have apart := sound.rep.lookup_none unused old
    exact absurd named apart

/-- The first maker of a checked order is not of its group when that would stop the sweep. -/
theorem apart_of_checked {index : ArenaIndex} {maker : Order} (sound : site.Sound queues)
    (checked : site.refusal order = .ok none) (mode : config.stpMode = .cancelNewest)
    (found : frontMaker (takerOf order) site = some (index, maker)) :
    sameGroup (takerOf order) maker = false := by
  have front := front_of_frontMaker sound.rep found
  unfold sameGroup
  cases grouped : order.stpGroup with
  | none => simp [takerOf, grouped]
  | some group =>
    have first := (refusal_none checked).2.2.2 group grouped mode
    have present : queues order.side.opposite maker.price ≠ [] :=
      List.ne_nil_of_mem (List.mem_of_mem_head? front.first)
    have head : (site.book.level order.side.opposite maker.price).head = some index := by
      rw [sound.rep.levels, levelOf]
      exact front.first
    have best : site.book.best order.side.opposite = some maker.price := front.best
    have acceptable : isPriceAcceptable order.side (effectivePrice order) maker.price = true :=
      front.acceptable
    have get : site.arena.get index = .ok maker := Arena.get_ok.mpr front.found
    simp only [stpFirstMakerMatches, bestOpposing_eq, best, acceptable,
      opposingLevel_ok sound.rep present, head, get, bind, Except.bind, pure, Except.pure,
      Bool.not_true, Bool.false_eq_true, if_false, Except.ok.injEq] at first
    simp only [takerOf, grouped]
    rw [← first, Bool.beq_comm]

/-! ## Room for the remainder -/

/-- A slot that holds an order is not the end of the free list. -/
theorem ne_freeListEnd {arena : Arena} {index : ArenaIndex} {stored : Order} (slots : arena.Inv)
    (found : arena.find index = some stored) : index ≠ freeListEnd :=
  Arena.find_ne_null slots found

/-- After an iteration that the sweep goes on after, a slot is free, or the taker is filled, or
the same maker is in front with quantity left. -/
theorem Iteration.room {following : Sweep config} (sound : sweep.engine.Sound queues)
    (iteration : Iteration taker queues sweep (.next following)) :
    following.engine.arena.freeHead ≠ freeListEnd ∨ following.remaining = 0 ∨
      ∃ index maker, frontMaker taker following.engine = some (index, maker) ∧
        maker.remaining ≠ 0 ∧ sameGroup taker maker = false := by
  have freed : ∀ {book book' : OrderBook config.maxTicks} {arena arena'} {index : ArenaIndex}
      {maker stored : Order} {price : UInt64}, Front taker sweep.engine queues price index maker →
      Removed book arena queues stored index book' arena' →
      arena'.freeHead ≠ freeListEnd := fun front removed => by
    rw [removed.freeHead]
    exact ne_freeListEnd sound.rep.slots front.found
  cases iteration with
  | stale _ front _ removed => exact .inl (freed front removed)
  | oldest _ front _ _ _ removed => exact .inl (freed front removed)
  | fillAll _ front _ _ _ _ _ removed => exact .inl (freed front removed)
  | fillPart left front apart part taken =>
    refine .inr ?_
    rename_i price index maker book arena depth
    by_cases spent : sweep.remaining - min sweep.remaining maker.matchableQty = 0
    · exact .inl spent
    refine .inr ?_
    obtain ⟨stored, front', same⟩ := front.taken taken
    have inFront : frontMaker taker (sweep.engine.withBook book arena) = some (index, stored) :=
      front'.frontMaker_eq taken.represents
    refine ⟨index, stored, inFront, ?_, ?_⟩
    · have less := (Order.fill_sound (sound.rep.sound taken.found) (UInt64.le_of_lt part)).2
      have now := congrArg Order.remaining same
      rw [Order.unlinked_remaining, less, Order.unlinked_remaining] at now
      rw [now, Ne, sub_eq_zero_of_le (UInt64.le_of_lt part)]
      exact UInt64.ne_of_lt part
    · have group := congrArg Order.stpGroup same
      simp only [Order.unlinked_stpGroup, Order.fill_stpGroup] at group
      unfold sameGroup at apart ⊢
      rw [group]
      exact apart

/-- A sweep that leaves quantity to rest leaves a slot free, unless it ends at once. -/
theorem room_to_rest {last : Sweep config} (sound : engine.Sound queues) {qty : UInt64}
    (visits : Visits (matchStep taker) ⟨engine, qty⟩ last)
    (exit : matchStep taker last = .ok (.done result)) (free : result.cancelIncoming = false)
    (left : result.remaining ≠ 0)
    (apart : ∀ index maker, config.stpMode = .cancelNewest →
      frontMaker taker engine = some (index, maker) → sameGroup taker maker = false)
    (full : result.engine.arena.freeHead = freeListEnd) :
    engine.arena.freeHead = freeListEnd ∧
      ∀ price, engine.book.best taker.side.opposite = some price →
        isPriceAcceptable taker.side taker.price price = false := by
  have begins : (⟨engine, qty⟩ : Sweep config).engine.Sound queues := sound
  obtain ⟨queues', sound'⟩ := sound_of_visits begins visits
  have ends : last.engine.arena = result.engine.arena ∧ last.remaining = result.remaining ∧
      ((∀ price, last.engine.book.best taker.side.opposite = some price →
          isPriceAcceptable taker.side taker.price price = false) ∨
        config.stpMode = .cancelNewest ∧ ∃ index maker,
          frontMaker taker last.engine = some (index, maker) ∧ sameGroup taker maker = true) := by
    cases matchStep_cases sound' exit with
    | exhausted nothing => exact absurd nothing left
    | unmatched _ refused => exact ⟨rfl, rfl, .inl refused⟩
    | newest _ front _ group mode =>
      exact ⟨rfl, rfl, .inr ⟨mode, _, _, front.frontMaker_eq sound'.rep, group⟩⟩
    | both | decrementAll | decrementPart => contradiction
  obtain ⟨sameArena, sameLeft, stop⟩ := ends
  rcases Relation.ReflTransGen.cases_tail visits with rfl | ⟨before, seen, step⟩
  · refine ⟨sameArena ▸ full, ?_⟩
    rcases stop with refused | ⟨mode, index, maker, found, group⟩
    · exact refused
    · rw [apart index maker mode found] at group
      contradiction
  · obtain ⟨queues'', sound''⟩ := sound_of_visits begins seen
    rcases (matchStep_cases sound'' step).room sound'' with free | spent | ⟨index, maker, found, -, other⟩
    · exact absurd (sameArena ▸ full) free
    · exact absurd (sameLeft ▸ spent) left
    · rcases stop with refused | ⟨-, index', maker', found', group⟩
      · rw [frontMaker_eq_none refused] at found
        contradiction
      · rw [found] at found'
        obtain ⟨rfl, rfl⟩ := Prod.mk.inj (Option.some.inj found')
        rw [other] at group
        contradiction

/-! ## The outcomes -/

/-- An iteration that does not cancel the taker decrements nothing. -/
theorem Iteration.decrementAt_kept (sound : sweep.engine.Sound queues)
    (iteration : Iteration taker queues sweep (.done result))
    (free : result.cancelIncoming = false) : decrementAt taker sweep = 0 := by
  cases iteration with
  | exhausted spent =>
    unfold decrementAt
    split <;> simp [spent]
  | unmatched _ refused => simp [decrementAt, frontMaker_eq_none refused]
  | newest _ front _ _ mode =>
    exact decrementAt_eq_zero sound.rep front fun all => by simp [mode] at all
  | both | decrementAll | decrementPart => contradiction

/-- What the sweep for a checked order does to its quantity and reports of it. -/
structure SweptFacts (site : MatchingEngine config) (order : NewOrder)
    (result : SweepResult config) : Prop where
  /-- It reports behind what was reported. -/
  reports : Extends (site.accept order) result.engine
  /-- The quantity is filled, decremented or left. -/
  balance : takerFills order.id (emittedSince (site.accept order) result.engine) +
    stpDecrement site order + result.remaining.toNat = order.qty.toNat
  /-- It does not cancel the order. -/
  quiet : ∀ left, .orderCancelled order.id left ∉ emittedSince (site.accept order) result.engine
  /-- The order does not rest yet. -/
  unused : result.engine.book.lookup order.id = none
  /-- Nothing is decremented unless the order is to be cancelled. -/
  undecremented : result.cancelIncoming = false → stpDecrement site order = 0
  /-- There is a slot for what is left to rest, unless there was none and no opposite order was
  acceptable. -/
  room : result.cancelIncoming = false → result.remaining ≠ 0 →
    result.engine.arena.freeHead = freeListEnd → site.arena.freeHead = freeListEnd ∧
      ∀ price, site.book.best order.side.opposite = some price →
        isPriceAcceptable order.side (effectivePrice order) price = false

/-- The sweep for a checked order. -/
theorem sweptFacts (sound : site.Sound queues) (kind : order.Matched)
    (checked : site.refusal order = .ok none)
    (swept : (site.accept order).matchAgainstBook (takerOf order) order.qty = .ok result) :
    SweptFacts site order result := by
  obtain ⟨last, found, visits, exit⟩ := lastState_of_loop swept
  have accepted : (⟨site.accept order, order.qty⟩ : Sweep config).engine.Sound queues :=
    sound.accept order
  obtain ⟨queues', sound'⟩ := sound_of_visits accepted visits
  obtain ⟨queues'', sound''⟩ := matchAgainstBook_sound accepted swept
  have iteration := matchStep_cases sound' exit
  have unused := (refusal_none checked).2.1
  have decrement : stpDecrement site order = (decrementAt (takerOf order) last).toNat := by
    have listed : lastState (matchStep (takerOf order))
        (site.arena.len.toNat + order.qty.toNat + 1) ⟨site.accept order, order.qty⟩ = some last :=
      found
    rw [stpDecrement, if_pos kind, listed]
  obtain ⟨further, quiet⟩ := swept_emitted (fun body => ∀ left, body ≠ .orderCancelled order.id left)
    accepted (fun sweep flow seen step body member left same => by
      obtain ⟨queues', sound'⟩ := sound_of_visits accepted seen
      obtain ⟨price, index, maker, front, named, -⟩ :=
        (matchStep_cases sound' step).cancelled (same ▸ member)
      obtain ⟨-, shrinks⟩ := visits_keeps (fun state => site.arena.Shrinks state.arena)
        (fun _ _ _ _ held before _ further =>
          before.trans sound.rep.toQueued (further.shrinks held))
        accepted (Arena.Shrinks.refl _) seen
      obtain ⟨before, delta, old, -, became⟩ := shrinks index _ (Arena.resting_of_find front.found)
      have sameId := congrArg Order.id became
      rw [Order.unlinked_id, Order.fill_id] at sameId
      exact sound.rep.lookup_none unused old (sameId.symm.trans named.symm)) swept
  refine ⟨further, ?_, fun left member => quiet _ member left rfl, ?_, fun free => ?_,
    fun free left full => ?_⟩
  · rw [decrement]
    exact swept_balance accepted visits exit
  · exact lookup_none_of_shrinks accepted sound'' (matchAgainstBook_shrinks accepted swept) unused
  · rw [decrement, iteration.decrementAt_kept sound' free]
    rfl
  · exact room_to_rest accepted visits exit free left
      (fun index maker mode found => apart_of_checked sound checked mode found) full

/-- The report of an accepted order. -/
def accepted (order : NewOrder) : EventBody :=
  .orderAccepted order.id order.side order.price order.qty order.orderType

/-- What is reported of an order that is matched. -/
theorem SweptFacts.emitted (facts : SweptFacts site order result) {tail : List EventBody}
    (bodies : after.bodies = result.engine.bodies ++ tail) :
    emittedSince site after =
      accepted order :: (emittedSince (site.accept order) result.engine ++ tail) := by
  obtain ⟨reports, appended⟩ := facts.reports
  refine emittedSince_eq ?_
  rw [bodies, emittedSince_eq appended.symm, ← appended, accept_bodies]
  simp [accepted]

/-- An order whose remainder is cancelled has a definite outcome. -/
theorem SweptFacts.cancelled (facts : SweptFacts site order result)
    (unused : site.book.lookup order.id = none)
    (settled : after = result.engine.emit (.orderCancelled order.id result.remaining)) :
    FilledUp site after order ∨ RestCancelled site after order := by
  subst settled
  have emitted := facts.emitted (emit_bodies result.engine
    (.orderCancelled order.id result.remaining))
  have fills : takerFills order.id (emittedSince site
      (result.engine.emit (.orderCancelled order.id result.remaining))) =
        takerFills order.id (emittedSince (site.accept order) result.engine) := by
    simp [emitted, accepted, filledBy]
  have cancels : ∀ left, .orderCancelled order.id left ∈ emittedSince site
      (result.engine.emit (.orderCancelled order.id result.remaining)) ↔
        left = result.remaining := fun left => by
    rw [emitted]
    simp [accepted, facts.quiet]
  have nothing : NothingRests site
      (result.engine.emit (.orderCancelled order.id result.remaining)) order :=
    facts.unused.trans unused.symm
  have balance := facts.balance
  by_cases spent : result.remaining = 0
  · refine .inl ⟨?_, nothing, fun left member => ((cancels left).mp member).trans spent⟩
    rw [spent, UInt64.toNat_zero] at balance
    rw [fills]
    omega
  · exact .inr ⟨result.remaining, spent, by rw [fills]; exact balance, (cancels _).mpr rfl,
      fun other member => (cancels other).mp member, nothing⟩

/-- An order that is filled has a definite outcome. -/
theorem SweptFacts.filledUp (facts : SweptFacts site order result)
    (unused : site.book.lookup order.id = none) (nothing : result.remaining = 0) :
    FilledUp site result.engine order := by
  have bodies : result.engine.bodies = result.engine.bodies ++ [] := (List.append_nil _).symm
  have emitted := facts.emitted bodies
  have balance := facts.balance
  rw [nothing, UInt64.toNat_zero] at balance
  refine ⟨?_, facts.unused.trans unused.symm, fun left member => ?_⟩
  · simpa [emitted, accepted, filledBy] using balance
  · rw [emitted] at member
    simp [accepted, facts.quiet] at member

/-- An order that the book takes is the last one of its level. -/
theorem restRests_of_inserted {qty : UInt64} {index : ArenaIndex}
    {book : OrderBook config.maxTicks} {arena : Arena}
    (unused : site.book.lookup order.id = none)
    (kind : order.Keeps ∨ order.orderType = .postOnly)
    (inserted : Inserted engine.book engine.arena queues (order.resting qty) index book arena)
    (balance : takerFills order.id (emittedSince site after) + qty.toNat = order.qty.toNat)
    (sameBook : after.book = book) (sameArena : after.arena = arena) :
    RestRests site after order := by
  subst sameBook sameArena
  have rests := inserted.resting index
  rw [if_pos rfl] at rests
  obtain ⟨stored, found, same⟩ := Arena.find_of_resting rests
  have onSide := congrArg Order.side same
  have atPrice := congrArg Order.price same
  have left := congrArg Order.remaining same
  simp only [Order.unlinked_side, Order.unlinked_price, Order.unlinked_remaining] at onSide atPrice left
  have whole : (order.resting qty).remaining = qty := by
    simp [NewOrder.resting, Order.submitted, Order.remaining, saturatingSub]
  refine ⟨unused, kind, index, stored,
    (inserted.represents.indexed order.id index).mpr ⟨order.resting qty, rests, rfl⟩, found,
    onSide, atPrice, ?_, ?_⟩
  · rw [left, whole]
    exact balance
  · rw [inserted.represents.levels, levelOf]
    change (queues.append (order.resting qty) index (order.resting qty).side
      (order.resting qty).price).getLast? = some index
    simp [Queues.append]

/-- An order that the book refuses to take has none of the outcomes. -/
theorem no_outcome_of_refused (lookup : after.book.lookup order.id = site.book.lookup order.id)
    (emitted : emittedSince site after =
      [accepted order, .bookUpdate order.side order.price order.qty])
    (undecremented : stpDecrement site order = 0) (proper : order.qty ≠ 0) :
    ¬DefiniteOutcome site after order := by
  rintro ⟨⟨whole, -⟩ | ⟨left, -, -, reported, -⟩ | ⟨unused, -, index, stored, held, -⟩, -⟩
  · rw [emitted, undecremented] at whole
    simp only [takerFills_cons, takerFills_nil, accepted, filledBy, Nat.add_zero] at whole
    exact proper (UInt64.toNat_inj.mp whole.symm)
  · rw [emitted] at reported
    simp [accepted] at reported
  · rw [lookup, unused] at held
    contradiction

/-- An order that is matched has a definite outcome unless the book will refuse it. -/
theorem matched_outcome (sound : site.Sound queues) (kind : order.Matched)
    (checked : site.refusal order = .ok none)
    (swept : (site.accept order).matchAgainstBook (takerOf order) order.qty = .ok result)
    {queues' : Queues} (settled : Settled result queues' order after)
    (takes : ¬WillRefuse site order) :
    FilledUp site after order ∨ RestCancelled site after order ∨ RestRests site after order := by
  have facts := sweptFacts sound kind checked swept
  obtain ⟨proper, unused, -⟩ := refusal_none checked
  cases settled with
  | prevented => exact (facts.cancelled unused rfl).imp_right .inl
  | dropped => exact (facts.cancelled unused rfl).imp_right .inl
  | filled _ nothing => exact .inl (facts.filledUp unused nothing)
  | rested free left keeps rested =>
    cases rested with
    | refused why =>
      rcases why with resting | full
      · exact absurd facts.unused resting
      · obtain ⟨noRoom, apart⟩ := facts.room free left full
        rw [effectivePrice_of_keeps keeps] at apart
        exact absurd ⟨proper, .inr ⟨keeps, noRoom, apart⟩⟩ takes
    | inserted _ inserted =>
      refine .inr (.inr (restRests_of_inserted unused (.inl keeps) inserted ?_ rfl rfl))
      have balance := facts.balance
      rw [facts.undecremented free] at balance
      rename_i index book arena room
      have bodies : ((result.engine.withBook book arena).emit
          (.bookUpdate order.side order.price result.remaining)).bodies =
            result.engine.bodies ++ [.bookUpdate order.side order.price result.remaining] := by
        simp
      rw [facts.emitted bodies]
      simpa [accepted, filledBy] using balance

/-- A sweep for which no opposite order is acceptable ends at once. -/
theorem swept_at_once (sound : engine.Sound queues) {qty : UInt64} (proper : qty ≠ 0)
    (refused : ∀ price, engine.book.best taker.side.opposite = some price →
      isPriceAcceptable taker.side taker.price price = false)
    (swept : engine.matchAgainstBook taker qty = .ok result) : result = ⟨engine, qty, false⟩ := by
  have begins : (⟨engine, qty⟩ : Sweep config).engine.Sound queues := sound
  have unmet : ∀ {price index maker}, ¬Front taker engine queues price index maker :=
    fun front => by
      have acceptable := front.acceptable
      rw [refused _ front.best] at acceptable
      contradiction
  obtain ⟨last, visits, exit⟩ := loop_exit swept
  have once : last = ⟨engine, qty⟩ := visits.eq_start fun following step => by
    cases matchStep_cases begins step with
    | stale _ front => exact unmet front
    | oldest _ front => exact unmet front
    | fillPart _ front => exact unmet front
    | fillAll _ front => exact unmet front
  subst once
  cases matchStep_cases begins exit with
  | exhausted nothing => exact absurd nothing proper
  | unmatched => rfl
  | newest _ front => exact (unmet front).elim
  | both _ front => exact (unmet front).elim
  | decrementAll _ front => exact (unmet front).elim
  | decrementPart _ front => exact (unmet front).elim

/-- A post-only order that the book is given has an outcome, unless the book refuses it. -/
theorem posted_outcome_iff (kind : order.orderType = .postOnly)
    (rested : Rested (site.accept order) queues order order.qty after) :
    DefiniteOutcome site after order ↔ ¬WillRefuse site order := by
  have unmatched : ¬order.Matched := fun matched => matched.1 kind
  have undecremented : stpDecrement site order = 0 := by rw [stpDecrement, if_neg unmatched]
  have bodies := rested.bodies_eq
  rw [accept_bodies, List.append_assoc] at bodies
  have emitted := emittedSince_eq bodies
  cases rested with
  | refused why =>
    have lookup : ((site.accept order).emit
        (.bookUpdate order.side order.price order.qty)).book.lookup order.id =
          site.book.lookup order.id := rfl
    constructor
    · intro outcome will
      exact no_outcome_of_refused lookup emitted undecremented will.1 outcome
    · intro takes
      have nothing : order.qty = 0 := by
        by_contra proper
        exact takes ⟨proper, .inl ⟨kind, why⟩⟩
      refine ⟨.inl ⟨?_, lookup, fun left member => ?_⟩, outcomes_apart⟩
      · rw [emitted, undecremented, nothing]
        simp [filledBy]
      · rw [emitted] at member
        simp at member
  | inserted room inserted =>
    have unused : site.book.lookup order.id = none := inserted.unused
    refine ⟨fun _ will => ?_, fun _ => ⟨.inr (.inr ?_), outcomes_apart⟩⟩
    · rcases will.2 with ⟨-, resting | full⟩ | ⟨keeps, -⟩
      · exact resting unused
      · exact room full
      · rcases keeps.2 with limit | iceberg
        · rw [kind] at limit
          contradiction
        · rw [kind] at iceberg
          contradiction
    · refine restRests_of_inserted unused (.inr kind) inserted ?_ rfl rfl
      rw [emitted]
      simp [filledBy]

/-- An order that was matched and that the book will refuse to take has no outcome. -/
theorem matched_no_outcome (sound : site.Sound queues) (kind : order.Matched)
    (checks : site.refusal order = .ok none)
    (swept : (site.accept order).matchAgainstBook (takerOf order) order.qty = .ok result)
    (settled : Settled result queues' order after) (will : WillRefuse site order) :
    ¬DefiniteOutcome site after order := by
  intro outcome
  obtain ⟨proper, ⟨postOnly, -⟩ | ⟨keeps, full, apart⟩⟩ := will
  · exact kind.1 postOnly
  have refused : ∀ price, (site.accept order).book.best (takerOf order).side.opposite = some price →
      isPriceAcceptable (takerOf order).side (takerOf order).price price = false := by
    intro price best
    have beyond := apart price best
    simpa only [takerOf, effectivePrice_of_keeps keeps] using beyond
  have facts := sweptFacts sound kind checks swept
  have atOnce := swept_at_once (sound.accept order) proper refused swept
  subst atOnce
  cases settled with
  | prevented stopped => contradiction
  | filled _ nothing => exact proper nothing
  | dropped _ _ drops => exact drops keeps
  | rested _ _ _ rested =>
    cases rested with
    | inserted room => exact room full
    | refused =>
      have bodies : ((site.accept order).emit
          (.bookUpdate order.side order.price order.qty)).bodies =
            site.bodies ++ [accepted order, .bookUpdate order.side order.price order.qty] := by
        simp [accepted]
      have lookup : ((site.accept order).emit
          (.bookUpdate order.side order.price order.qty)).book.lookup order.id =
            site.book.lookup order.id := rfl
      exact no_outcome_of_refused lookup (emittedSince_eq bodies) (facts.undecremented rfl)
        proper outcome

/-- Every accepted order has exactly one of the outcomes, except for an order of some quantity
that the book will refuse to take, which has none. -/
theorem outcome_iff_taken (config : InstrumentConfig) (engine : MatchingEngine config)
    (command : Command) (site after : MatchingEngine config) (order : NewOrder)
    (reachable : Reachable engine) (submits : Submits engine command site order)
    (completed : site.processNewOrder order = .ok after)
    (announced : accepted order ∈ emittedSince site after)
    (other : order.orderType ≠ .stopLimit) :
    DefiniteOutcome site after order ↔ ¬WillRefuse site order := by
  obtain ⟨queues, sound⟩ := Reaches.sound reachable
  obtain ⟨queues', sound'⟩ := submits.sound sound
  have handled := processNewOrder_cases sound' completed
  cases handled with
  | rejected reason =>
    rw [emittedSince_eq (emitRejected_bodies site order.id reason)] at announced
    simp [accepted] at announced
  | parked kind => exact absurd kind other
  | posted kind apart rested => exact posted_outcome_iff kind rested
  | matched kind checks swept sound'' settled =>
    constructor
    · exact fun outcome will => matched_no_outcome sound' kind checks swept settled will outcome
    · exact fun takes =>
        ⟨matched_outcome sound' kind checks swept settled takes, outcomes_apart⟩

/-- A bid that fills the two asks at its price, with four left to rest, has a definite outcome. -/
theorem outcome_of_resting_remainder :
    ∃ engine after : MatchingEngine (smallConfig .cancelNewest),
      engine.arena.orders.map Order.id = [1, 2] ∧
      engine.clearEvents.processNewOrder (.gtc 3 .bid 2 14) = .ok after ∧
      takerFills 3 (emittedSince engine.clearEvents after) = 10 ∧ after.book.lookup 3 ≠ none ∧
      DefiniteOutcome engine.clearEvents after (.gtc 3 .bid 2 14) := by
  obtain ⟨engine, reachable, shown⟩ := Reachable.exists_run
    (fun engine : MatchingEngine (smallConfig .cancelNewest) =>
      engine.arena.orders.map Order.id == [1, 2] &&
        engine.clearEvents.arena.freeHead != freeListEnd &&
        (engine.clearEvents.processNewOrder (.gtc 3 .bid 2 14)).toOption.any fun after =>
          (emittedSince engine.clearEvents after).contains (accepted (.gtc 3 .bid 2 14)) &&
            takerFills 3 (emittedSince engine.clearEvents after) == 10 &&
            after.book.lookup 3 != none) 8
    [.submit (.gtc 1 .ask 2 4), .submit (.gtc 2 .ask 2 6)] (by decide +kernel)
  simp only [Bool.and_eq_true, beq_iff_eq, bne_iff_ne] at shown
  obtain ⟨⟨ids, room⟩, shown⟩ := shown
  obtain ⟨after, completed, facts⟩ := (Option.any_eq_true _ _).mp shown
  simp only [Bool.and_eq_true, beq_iff_eq, bne_iff_ne] at facts
  obtain ⟨⟨announced, fills⟩, rests⟩ := facts
  refine ⟨engine, after, ids, ok_of_toOption completed, fills, rests, (outcome_iff_taken _ engine
    (.submit (.gtc 3 .bid 2 14)) _ after _ reachable (.direct rfl) (ok_of_toOption completed)
    (List.contains_iff_mem.mp announced) (by decide)).mpr ?_⟩
  rintro ⟨-, ⟨postOnly, -⟩ | ⟨-, full, -⟩⟩
  · exact absurd postOnly (by decide)
  · exact room full

/-- With one slot, taken by an ask, a bid below it is accepted and disappears. -/
theorem no_outcome_in_full_arena :
    ¬∀ (engine : MatchingEngine (smallConfig .cancelNewest)) command site after order,
      Reachable engine → Submits engine command site order →
      site.processNewOrder order = .ok after → accepted order ∈ emittedSince site after →
      order.orderType ≠ .stopLimit → DefiniteOutcome site after order := by
  intro always
  obtain ⟨engine, reachable, shown⟩ := Reachable.exists_run
    (fun engine : MatchingEngine (smallConfig .cancelNewest) =>
      (engine.clearEvents.processNewOrder (.gtc 2 .bid 1 10)).toOption.any fun after =>
        (after.book.lookup 2 == engine.clearEvents.book.lookup 2) &&
        (emittedSince engine.clearEvents after ==
          [accepted (.gtc 2 .bid 1 10), .bookUpdate .bid 1 10] &&
        stpDecrement engine.clearEvents (.gtc 2 .bid 1 10) == 0)) 1
    [.submit (.gtc 1 .ask 2 10)] (by decide +kernel)
  obtain ⟨after, completed, facts⟩ := (Option.any_eq_true _ _).mp shown
  rw [Bool.and_eq_true, Bool.and_eq_true, beq_iff_eq, beq_iff_eq, beq_iff_eq] at facts
  obtain ⟨lookup, emitted, undecremented⟩ := facts
  refine no_outcome_of_refused lookup emitted undecremented (by decide) ?_
  exact always engine (.submit (.gtc 2 .bid 1 10)) engine.clearEvents after (.gtc 2 .bid 1 10)
    reachable (.direct rfl) (ok_of_toOption completed)
    (by rw [emitted]; exact List.mem_cons_self) (by decide)

end MatchingEngine

end MatchX
