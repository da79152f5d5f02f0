import MatchX.Engine.FillOrKill
import MatchX.Engine.LiveIds
import MatchX.Engine.Outcome
import MatchX.Engine.Relog

/-!
# Modifying an order

`process_modify` withdraws an order and submits a plain limit order in its place, without a visible
quantity and without a self-trade group. That is the order's own replacement where the order is such
an order itself, and otherwise as long as the replacement is filled on arrival before it meets a
maker of the order's group: only then nothing is left to which the lost attributes could matter.
-/

namespace MatchX

open MatchX.Support

/-- The order as it would be submitted anew, with its visible quantity, at another price and with
another quantity. -/
def Order.renewed (order : Order) (visible : Option UInt64) (newPrice newQty : UInt64) :
    NewOrder where
  id := order.id
  side := order.side
  price := newPrice
  qty := newQty
  orderType := order.orderType
  timeInForce := .gtc
  visibleQty := visible
  stopPrice := none
  stpGroup := if order.stpGroup = stpNone then none else some order.stpGroup

/-- A visible quantity is the order's own: submitted with it, the order rests as it does. The book
stores what an order was submitted with, and its quantity for one submitted with none. -/
def Order.Shows (order : Order) (visible : Option UInt64) : Prop :=
  visible.getD order.quantity = order.visibleQuantity

/-- Whether a report is one of a fill or of a cancellation. -/
def EventBody.exchanges : EventBody → Bool
  | .fill .. | .orderCancelled .. => true
  | _ => false

namespace MatchingEngine

variable {config : InstrumentConfig} {engine site other after : MatchingEngine config}
  {queues : Queues} {order : NewOrder} {taker : Taker} {sweep : Sweep config}
  {result : SweepResult config} {qty newPrice newQty : UInt64} {id : OrderId}
  {flow : Flow (Sweep config) (SweepResult config)} {mode : StpMode}

/-- Two steps end alike: the engines after them agree, and so do the fills and cancellations that
they report. -/
structure EndAlike (before after before' after' : MatchingEngine config) : Prop where
  /-- The engines agree. -/
  alike : Alike after after'
  /-- The reports agree. -/
  reports : (emittedSince before after).filter EventBody.exchanges =
    (emittedSince before' after').filter EventBody.exchanges

/-- A modification of the order in a slot is its cancellation followed by the submission of the
order itself, with its visible quantity, at the new price and with the new quantity: for the command
alone, and for the whole call with the stops that it triggers. -/
def CancelsAndReplaces (engine : MatchingEngine config) (index : ArenaIndex) (order : Order)
    (visible : Option UInt64) (newPrice newQty : UInt64) (after : MatchingEngine config) : Prop :=
  ∃ without, engine.clearEvents.removeMaker index = .ok without ∧
    (∃ modified replaced,
      engine.clearEvents.processModify order.id newPrice newQty = .ok modified ∧
      without.processNewOrder (order.renewed visible newPrice newQty) = .ok replaced ∧
      EndAlike engine.clearEvents modified without replaced) ∧
    ∀ instrumentId, ∃ after',
      without.process (.newOrder instrumentId (order.renewed visible newPrice newQty)) = .ok after' ∧
      EndAlike engine.clearEvents after without after'

/-- What an order of a taker can trade before it meets a live maker of its group. -/
def tradableApart (engine : MatchingEngine config) (order : NewOrder) : Nat :=
  tradable .cancelNewest (takerOf order) (makersFor (takerOf order) engine)

/-- The order is a limit order without a group, and was submitted without a visible quantity or with
the one that it would rest with; or it is not post-only, and submitted anew it is not turned away at
once and can trade its whole quantity before it meets a live maker of its group. -/
def KeepsAttributes (engine : MatchingEngine config) (order : Order) (visible : Option UInt64)
    (newPrice newQty : UInt64) : Prop :=
  let renewed := order.renewed visible newPrice newQty
  (order.orderType = .limit ∧ order.stpGroup = stpNone ∧
      ∀ shown ∈ visible, shown.toNat = newQty.toNat - engine.tradableApart renewed) ∨
    (order.orderType ≠ .postOnly ∧ ¬engine.StoppedAtOnce renewed ∧
      newQty.toNat ≤ engine.tradableApart renewed)

instance {order : Order} {visible : Option UInt64} :
    Decidable (engine.KeepsAttributes order visible newPrice newQty) := by
  unfold KeepsAttributes
  have : Decidable (∀ shown ∈ visible, shown.toNat =
      newQty.toNat - engine.tradableApart (order.renewed visible newPrice newQty)) :=
    Option.decidableForallMem visible
  infer_instance

/-! ## Takers without a group -/

/-- The taker without its group. -/
def Taker.ungrouped (taker : Taker) : Taker := { taker with stpGroup := none }

/-- A sweep for a taker without a group cancels no maker. -/
theorem Iteration.quiet (none : taker.stpGroup = none)
    (iteration : Iteration taker queues sweep flow) (id : OrderId) (left : UInt64) :
    .orderCancelled id left ∉ emittedSince sweep.engine (flowEngine flow) := by
  cases iteration with
  | oldest _ _ _ group | both _ _ _ group =>
    rw [sameGroup_of_none none] at group
    contradiction
  | exhausted | unmatched | newest | stale | decrementAll | decrementPart | fillPart | fillAll =>
    simp [emittedSince, flowEngine]

/-- A sweep that cancels its taker met a maker of the taker's group. -/
theorem Iteration.grouped (iteration : Iteration taker queues sweep (.done result))
    (stopped : result.cancelIncoming = true) : taker.stpGroup ≠ none := fun none => by
  cases iteration with
  | both _ _ _ group | decrementAll _ _ _ group | decrementPart _ _ group =>
    rw [sameGroup_of_none none] at group
    contradiction
  | exhausted | unmatched | newest => contradiction

/-- Without its group a taker can trade no less. -/
theorem tradable_le_ungrouped (makers : List Order) :
    tradable .cancelNewest taker makers ≤ tradable mode taker.ungrouped makers := by
  induction makers with
  | nil => exact Nat.le_refl _
  | cons maker rest ih =>
    have apart : sameGroup taker.ungrouped maker = false := sameGroup_of_none rfl
    by_cases spent : maker.remaining = 0
    · simpa [tradable, spent] using ih
    · cases group : sameGroup taker maker with
      | true => simp [tradable, spent, group]
      | false => simpa [tradable, spent, group, apart] using ih

/-- An iteration before the taker meets a maker of its group is one for the taker without it. -/
theorem matchStep_ungrouped (sound : sweep.engine.Sound queues)
    (enough : sweep.remaining.toNat ≤
      tradable .cancelNewest taker (makersFor taker sweep.engine)) :
    matchStep taker.ungrouped sweep = matchStep taker sweep := by
  unfold matchStep
  by_cases nothing : sweep.remaining = 0
  · rw [if_pos nothing, if_pos nothing]
  simp only [if_neg nothing, bestOpposing_eq, bind, Except.bind, pure, Except.pure,
    Taker.ungrouped]
  cases best : sweep.engine.book.best taker.side.opposite with
  | none => rfl
  | some price =>
    simp only
    by_cases acceptable : isPriceAcceptable taker.side taker.price price = true
    · obtain ⟨index, maker, front⟩ := exists_front sound best acceptable
      have get : sweep.engine.arena.get index = .ok maker := Arena.get_ok.mpr front.found
      simp only [acceptable, Bool.not_true, Bool.false_eq_true, if_false,
        front.level_ok sound.rep, front.head sound.rep, get]
      by_cases spent : maker.remaining = 0
      · rw [if_pos spent, if_pos spent]
      · obtain ⟨behind, ahead⟩ := front.makersFor sound.rep
        have apart : sameGroup taker maker = false := Bool.eq_false_iff.mpr fun group => by
          have group' : sameGroup taker maker.unlinked = true := group
          have live : maker.unlinked.remaining ≠ 0 := spent
          rw [ahead, tradable, if_neg live, if_pos group', if_neg (by decide)] at enough
          exact nothing (UInt64.toNat_inj.mp (Nat.le_zero.mp enough))
        have apart' : sameGroup ⟨taker.id, taker.side, taker.price, none⟩ maker = false :=
          sameGroup_of_none rfl
        simp only [apart, apart', Bool.false_eq_true, if_false]
        rfl
    · simp only [acceptable, Bool.not_false, if_true]

/-- A sweep that ends before the taker meets a maker of its group is one for the taker without
it. -/
theorem matchAgainstBook_ungrouped (sound : engine.Sound queues)
    (enough : qty.toNat ≤ tradable .cancelNewest taker (makersFor taker engine)) :
    engine.matchAgainstBook taker.ungrouped qty = engine.matchAgainstBook taker qty := by
  refine @loop_congr _ _ _ .exhausted (matchStep taker) (matchStep taker.ungrouped)
    (fun sweep => (∃ queues, sweep.engine.Sound queues) ∧
      sweep.remaining.toNat ≤ tradable .cancelNewest taker (makersFor taker sweep.engine))
    ?_ ?_ (engine.arena.len.toNat + qty.toNat + 1) ⟨engine, qty⟩ ⟨⟨queues, sound⟩, enough⟩
  · rintro sweep ⟨⟨queues, sound⟩, enough⟩
    exact matchStep_ungrouped sound enough
  · rintro sweep following ⟨⟨queues, sound⟩, enough⟩ step
    have iteration := matchStep_cases sound step
    have quiet := (matchStep_cases sound ((matchStep_ungrouped sound enough).trans step)).quiet rfl
    obtain ⟨events, turn, -⟩ := iteration.turn_in .cancelNewest sound (.inr quiet)
    have taken := turn.tradable (makersFor_sound sound.rep)
    exact ⟨iteration.sound sound, by omega⟩

/-- Without a group the mode says nothing about what a taker can trade. -/
theorem tradable_of_none (none : taker.stpGroup = none) (mode' : StpMode) (makers : List Order) :
    tradable mode taker makers = tradable mode' taker makers := by
  induction makers with
  | nil => rfl
  | cons maker rest ih =>
    have apart : sameGroup taker maker = false := sameGroup_of_none none
    simp [tradable, apart, ih]

/-- The sweep of a taker without a group leaves what the makers ahead cannot fill. -/
theorem swept_left (none : taker.stpGroup = none) (sound : engine.Sound queues)
    (swept : engine.matchAgainstBook taker qty = .ok result) :
    result.remaining.toNat =
        qty.toNat - tradable .cancelNewest taker (makersFor taker engine) ∧
      result.cancelIncoming = false := by
  obtain ⟨last, visits, exit⟩ := loop_exit swept
  have begins : (⟨engine, qty⟩ : Sweep config).engine.Sound queues := sound
  obtain ⟨queues', sound'⟩ := sound_of_visits begins visits
  have iteration := matchStep_cases sound' exit
  have free : result.cancelIncoming = false :=
    Bool.eq_false_iff.mpr fun stopped => iteration.grouped stopped none
  have fills := swept_fills sound swept
  have balance := swept_balance sound visits exit
  rw [iteration.decrementAt_kept sound' free, UInt64.toNat_zero] at balance
  rw [tradable_of_none none .cancelNewest] at fills
  exact ⟨by omega, free⟩

/-! ## The checks of an order that is submitted anew -/

/-- What the checks of a fresh order of some quantity that may rest say. -/
theorem refusal_gtc (sound : site.Sound queues) (gtc : order.timeInForce = .gtc)
    (proper : order.qty ≠ 0) (fresh : site.book.lookup order.id = none) :
    site.refusal order =
      .ok (if site.StoppedAtOnce order then some .selfTradePreventionTriggered else none) := by
  rw [refusal_eq sound]
  simp [gtc, proper, fresh]

/-! ## Where the attributes do not matter -/

/-- The reports since an order was accepted are behind the report of it. -/
theorem emittedSince_accept (further : Extends (site.accept order) after) :
    emittedSince site after = accepted order :: emittedSince (site.accept order) after := by
  obtain ⟨rest, appended⟩ := further
  rw [emittedSince_eq appended.symm]
  refine emittedSince_eq ?_
  rw [← appended, accept_bodies]
  simp [accepted]

/-- An order whose remainder may rest is matched on arrival. -/
theorem matched_of_keeps (keeps : order.Keeps) : order.Matched := by
  obtain ⟨-, limit | iceberg⟩ := keeps
  · simp [NewOrder.Matched, limit]
  · simp [NewOrder.Matched, iceberg]

/-- The matching of an accepted order and the settling of its remainder. -/
def matchAndSettle (order : NewOrder) (engine : MatchingEngine config) :
    Except Fault (MatchingEngine config) :=
  engine.matchAgainstBook (takerOf order) order.qty >>= fun result => settleRemainder result order

/-- Matching an order with another past. -/
theorem matchAndSettle_relog (past : Past) (engine : MatchingEngine config) :
    matchAndSettle order (engine.relog past) = (matchAndSettle order engine).map (relog past) := by
  unfold matchAndSettle
  rw [matchAgainstBook_relog]
  exact follows_bind rfl fun result _ => settleRemainder_relog past

/-- What becomes of a fresh order of some quantity that may rest and is not turned away. -/
theorem processNewOrder_passed (sound : site.Sound queues) (keeps : order.Keeps)
    (proper : order.qty ≠ 0) (fresh : site.book.lookup order.id = none)
    (passes : ¬site.StoppedAtOnce order) :
    site.processNewOrder order = matchAndSettle order (site.accept order) := by
  rw [processNewOrder_matched (matched_of_keeps keeps),
    refusal_gtc sound keeps.1 proper fresh, if_neg passes]
  rfl

/-- Such an order is reported as accepted first. -/
theorem extends_accept (sound : site.Sound queues) (keeps : order.Keeps)
    (proper : order.qty ≠ 0) (fresh : site.book.lookup order.id = none)
    (passes : ¬site.StoppedAtOnce order) (returned : site.processNewOrder order = .ok after) :
    Extends (site.accept order) after := by
  refine accepted_of_not_turnsAway sound ?_ returned
  rw [turnsAway_matched sound (matched_of_keeps keeps), refusal_gtc sound keeps.1 proper fresh,
    if_neg passes]

section Ungrouped

variable {own replacement : NewOrder} {modified : MatchingEngine config}

/-- An order that trades its whole quantity before it meets a live maker of its group is handled
like another one without its group, whatever the types of the two. -/
theorem processNewOrder_ungrouped (sound : site.Sound queues) (alike : Alike site other)
    (keeps : own.Keeps) (keeps' : replacement.Keeps) (group : replacement.stpGroup = none)
    (sameTaker : takerOf replacement = (takerOf own).ungrouped)
    (sameQty : replacement.qty = own.qty) (proper : own.qty ≠ 0)
    (fresh : site.book.lookup own.id = none) (passes : ¬site.StoppedAtOnce own)
    (enough : own.qty.toNat ≤
      tradable .cancelNewest (takerOf own) (makersFor (takerOf own) site))
    (returned : site.processNewOrder replacement = .ok modified) :
    ∃ replaced, other.processNewOrder own = .ok replaced ∧ Alike modified replaced ∧
      ∃ rest, emittedSince site modified = accepted replacement :: rest ∧
        emittedSince other replaced = accepted own :: rest := by
  have sameId : replacement.id = own.id := congrArg Taker.id sameTaker
  have proper' : replacement.qty ≠ 0 := sameQty ▸ proper
  have fresh' : site.book.lookup replacement.id = none := sameId ▸ fresh
  have passes' : ¬site.StoppedAtOnce replacement := not_stoppedAtOnce group
  have begins := extends_accept sound keeps' proper' fresh' passes' returned
  rw [processNewOrder_passed sound keeps' proper' fresh' passes'] at returned
  have sound' : other.Sound queues := sound.congr alike.book alike.arena
  have makers : makersFor (takerOf own) (other.accept own) = makersFor (takerOf own) site :=
    makersFor_congr alike.book alike.arena
  have accepts : Alike (site.accept replacement) (other.accept own) :=
    ⟨alike.book, alike.arena, alike.stopBids, alike.stopAsks, alike.lastTradePrice⟩
  obtain ⟨replaced, returned', alike', reports⟩ := accepts.follows matchAndSettle_relog returned
  unfold matchAndSettle at returned'
  cases swept : (other.accept own).matchAgainstBook (takerOf replacement) replacement.qty with
  | error fault =>
    rw [swept] at returned'
    contradiction
  | ok result =>
    have settled : settleRemainder result replacement = .ok replaced := by
      rw [swept] at returned'
      exact returned'
    rw [sameTaker, sameQty] at swept
    obtain ⟨left, free⟩ := swept_left rfl (sound'.accept own) swept
    have whole : own.qty.toNat ≤ tradable .cancelNewest (takerOf own).ungrouped
        (makersFor (takerOf own).ungrouped (other.accept own)) :=
      (makers.symm ▸ enough).trans (tradable_le_ungrouped _)
    have nothing : result.remaining = 0 := by
      rw [← UInt64.toNat_inj, left, UInt64.toNat_zero]
      omega
    obtain rfl : result.engine = replaced := by
      simpa [settleRemainder, free, nothing] using settled
    rw [matchAgainstBook_ungrouped (sound'.accept own) (makers.symm ▸ enough)] at swept
    have completed : other.processNewOrder own = .ok result.engine := by
      rw [processNewOrder_passed sound' keeps proper (alike.book ▸ fresh) ?_, matchAndSettle, swept]
      · simp [settleRemainder, free, nothing, bind, Except.bind]
      · rwa [StoppedAtOnce, makersFor_congr alike.book alike.arena]
    obtain ⟨begins', -⟩ := swept_emitted (fun _ => True) (sound'.accept own)
      (fun _ _ _ _ _ _ => trivial) swept
    exact ⟨result.engine, completed, alike', _, emittedSince_accept begins,
      by rw [emittedSince_accept begins', reports]⟩

end Ungrouped

/-! ## Visible quantities -/

/-- An order submitted without a visible quantity rests like one that shows what rests of it. -/
theorem settleRemainder_shown {shown : UInt64}
    (free : result.cancelIncoming = false) (left : result.remaining ≠ 0 → shown = result.remaining)
    (plain : order.visibleQty = none) :
    settleRemainder result { order with visibleQty := some shown } = settleRemainder result order := by
  unfold settleRemainder
  simp only [free, Bool.false_eq_true, if_false]
  by_cases nothing : result.remaining = 0
  · rw [if_pos nothing, if_pos nothing]
  · have same : result.engine.restOrder { order with visibleQty := some shown } result.remaining =
        result.engine.restOrder order result.remaining := by
      rw [left nothing]
      simp [restOrder, OrderBook.insertOrder, plain]
    rw [if_neg nothing, if_neg nothing, same]

/-- A limit order without a group is handled like one that shows what the makers ahead leave. -/
theorem processNewOrder_shown {shown : UInt64} (sound : site.Sound queues) (keeps : order.Keeps)
    (proper : order.qty ≠ 0) (fresh : site.book.lookup order.id = none)
    (group : order.stpGroup = none) (plain : order.visibleQty = none)
    (left : shown.toNat = order.qty.toNat - site.tradableApart order) :
    site.processNewOrder { order with visibleQty := some shown } = site.processNewOrder order := by
  let own : NewOrder := { order with visibleQty := some shown }
  have passes : ¬site.StoppedAtOnce own := not_stoppedAtOnce group
  have passed : site.processNewOrder own = matchAndSettle own (site.accept own) :=
    processNewOrder_passed sound keeps proper fresh passes
  rw [passed, processNewOrder_passed sound keeps proper fresh (not_stoppedAtOnce group)]
  unfold matchAndSettle
  change (site.accept order).matchAgainstBook (takerOf order) order.qty >>= _ = _
  cases swept : (site.accept order).matchAgainstBook (takerOf order) order.qty with
  | error fault => rfl
  | ok result =>
    obtain ⟨rest, free⟩ := swept_left group (sound.accept order) swept
    have makers : makersFor (takerOf order) (site.accept order) = makersFor (takerOf order) site :=
      makersFor_congr rfl rfl
    refine settleRemainder_shown free (fun _ => UInt64.toNat_inj.mp ?_) plain
    rw [rest, makers, left, tradableApart]

/-! ## How an order ends -/

/-- How a fresh order of some quantity ends that may rest when a slot is free. -/
inductive Ends (site after : MatchingEngine config) (order : NewOrder) : Prop
  /-- It is turned away. -/
  | rejected {reason} (why : order.orderType ≠ .postOnly → site.StoppedAtOnce order)
      (emitted : emittedSince site after = [.orderRejected order.id reason])
      (unused : after.book.lookup order.id = none)
  /-- Self-trade prevention cancels it. -/
  | cancelled {left} (grouped : order.stpGroup ≠ none)
      (reported : .orderCancelled order.id left ∈ emittedSince site after)
  /-- It is filled. Unless a maker is cancelled, it can trade its quantity before it meets one of
  its group. -/
  | filled (keeps : order.Keeps) (passes : ¬site.StoppedAtOnce order)
      (whole : takerFills order.id (emittedSince site after) = order.qty.toNat)
      (unused : after.book.lookup order.id = none)
      (trades : (∀ id left, .orderCancelled id left ∉ emittedSince site after) →
        order.qty.toNat ≤ tradable .cancelNewest (takerOf order) (makersFor (takerOf order) site))
  /-- Some of it rests: without a group, what the makers ahead cannot fill. -/
  | rests {index left} (held : after.book.lookup order.id = some index)
      (resting : after.arena.resting index = some (order.resting left))
      (behind : order.Keeps → order.stpGroup = none →
        left.toNat = order.qty.toNat - site.tradableApart order)

/-- An order that rests ends at rest. -/
theorem Rested.ends (rested : Rested engine queues order qty after)
    (unused : engine.book.lookup order.id = none) (free : engine.arena.freeHead ≠ freeListEnd)
    (behind : order.Keeps → order.stpGroup = none →
      qty.toNat = order.qty.toNat - site.tradableApart order) :
    Ends site after order := by
  cases rested with
  | refused why =>
    rcases why with taken | full
    · exact absurd unused taken
    · exact absurd full free
  | @inserted index book arena _ inserted =>
    have here : arena.resting index = some (order.resting qty) := by
      rw [inserted.resting, if_pos rfl]
    exact .rests ((inserted.represents.indexed order.id index).mpr ⟨_, here, rfl⟩) here behind

section Ending

variable (sound : site.Sound queues) (fresh : site.book.lookup order.id = none)
  (room : site.arena.freeHead ≠ freeListEnd)
include sound fresh room

/-- A limit or iceberg order ends in one of the ways listed, and cancels nothing when it has no
group. -/
theorem ends_of_keeps (proper : order.qty ≠ 0) (keeps : order.Keeps)
    (returned : site.processNewOrder order = .ok after) :
    Ends site after order ∧ (order.stpGroup = none →
      ∀ id left, .orderCancelled id left ∉ emittedSince site after) := by
  have kind := matched_of_keeps keeps
  by_cases stopped : site.StoppedAtOnce order
  · rw [processNewOrder_matched kind, refusal_gtc sound keeps.1 proper fresh,
      if_pos stopped] at returned
    obtain rfl := Except.ok.inj returned
    have emitted : emittedSince site (site.emitRejected order.id .selfTradePreventionTriggered) =
        [.orderRejected order.id .selfTradePreventionTriggered] :=
      emittedSince_eq (emitRejected_bodies _ _ _)
    exact ⟨.rejected (fun _ => stopped) emitted fresh, fun _ => by simp [emitted]⟩
  · have checks : site.refusal order = .ok none := by
      rw [refusal_gtc sound keeps.1 proper fresh, if_neg stopped]
    rw [processNewOrder_passed sound keeps proper fresh stopped] at returned
    unfold matchAndSettle at returned
    cases swept : (site.accept order).matchAgainstBook (takerOf order) order.qty with
    | error fault =>
      rw [swept] at returned
      contradiction
    | ok result =>
      rw [swept] at returned
      have accepts := sound.accept order
      obtain ⟨queues', sound'⟩ := matchAgainstBook_sound accepts swept
      have settled := settleRemainder_cases sound' kind returned
      have facts := sweptFacts sound kind checks swept
      obtain ⟨last, visits, exit⟩ := loop_exit swept
      have begins : (⟨site.accept order, order.qty⟩ : Sweep config).engine.Sound queues := accepts
      obtain ⟨queues'', sound''⟩ := sound_of_visits begins visits
      have quiet : order.stpGroup = none → ∀ id left, .orderCancelled id left ∉
          emittedSince (site.accept order) result.engine := fun group id left member => by
        obtain ⟨-, none⟩ := swept_emitted (fun body => body ≠ .orderCancelled id left) accepts
          (fun sweep flow seen step body member same => by
            obtain ⟨queues', sound'⟩ := sound_of_visits accepts seen
            exact (matchStep_cases sound' step).quiet group id left (same ▸ member)) swept
        exact none _ member rfl
      cases settled with
      | prevented free =>
        have grouped : order.stpGroup ≠ none := (matchStep_cases sound'' exit).grouped free
        have emitted := facts.emitted (emit_bodies result.engine
          (.orderCancelled order.id result.remaining))
        have reported : .orderCancelled order.id result.remaining ∈ emittedSince site
            (result.engine.emit (.orderCancelled order.id result.remaining)) := by
          rw [emitted]
          simp
        exact ⟨.cancelled grouped reported, fun group => absurd group grouped⟩
      | dropped _ _ drops => exact absurd keeps drops
      | filled free nothing =>
        have emitted := facts.emitted (List.append_nil result.engine.bodies).symm
        obtain ⟨whole, -, -⟩ := facts.filledUp fresh nothing
        rw [facts.undecremented free, Nat.add_zero] at whole
        refine ⟨.filled keeps stopped whole facts.unused fun none => ?_, fun group id left => ?_⟩
        · have least := swept_fills_le .cancelNewest accepts swept fun id left member =>
            none id left (by rw [emitted]; simp [member])
          rw [emitted] at whole
          simp only [accepted, takerFills_cons, filledBy, List.append_nil, Nat.zero_add] at whole
          rw [← whole]
          exact least
        · rw [emitted]
          simp [accepted, quiet group]
      | rested free left _ rested =>
        have emitted := facts.emitted rested.bodies_eq
        refine ⟨rested.ends facts.unused (fun full => ?_) fun _ group => ?_,
          fun group id left => ?_⟩
        · exact room (facts.room free left full).1
        · rw [(swept_left group accepts swept).1, tradableApart]
          rfl
        · rw [emitted]
          simp [accepted, quiet group]

/-- A post-only order ends in one of the ways listed. -/
theorem ends_of_postOnly (kind : order.orderType = .postOnly)
    (returned : site.processNewOrder order = .ok after) : Ends site after order := by
  cases processNewOrder_cases sound returned with
  | rejected reason =>
    exact .rejected (absurd kind) (emittedSince_eq (emitRejected_bodies _ _ _)) fresh
  | parked other => simp [kind] at other
  | posted _ _ rested =>
    refine rested.ends fresh room fun keeps => ?_
    obtain ⟨-, limit | iceberg⟩ := keeps <;> simp_all
  | matched other => exact absurd kind other.1

end Ending

/-- The fills and cancellations among some reports fill what the reports do. -/
theorem takerFills_exchanged (bodies : List EventBody) :
    takerFills id (bodies.filter EventBody.exchanges) = takerFills id bodies := by
  induction bodies with
  | nil => rfl
  | cons body rest ih =>
    cases body <;> simp [List.filter_cons, EventBody.exchanges, filledBy, ih]

/-- Two orders of one id and quantity, of which the second one is a limit order without a visible
quantity and without a group, end alike only when the first one is a limit order without a group too
that shows what rests, or is filled before it meets its group. -/
theorem Ends.attributes {own replacement : NewOrder} {modified replaced : MatchingEngine config}
    (ends : Ends other replaced own) (ends' : Ends site modified replacement)
    (quiet : ∀ id left, .orderCancelled id left ∉ emittedSince site modified)
    (sameId : replacement.id = own.id) (proper : replacement.qty ≠ 0)
    (keeps' : replacement.Keeps) (limit : replacement.orderType = .limit)
    (plain : replacement.visibleQty = none) (group : replacement.stpGroup = none)
    (alike : Alike modified replaced)
    (reports : (emittedSince site modified).filter EventBody.exchanges =
      (emittedSince other replaced).filter EventBody.exchanges) :
    (own.orderType = .limit ∧ own.stpGroup.getD stpNone = stpNone ∧ ∀ shown ∈ own.visibleQty,
        shown.toNat = replacement.qty.toNat - site.tradableApart replacement) ∨
      (own.orderType ≠ .postOnly ∧ ¬other.StoppedAtOnce own ∧
        own.qty.toNat ≤ other.tradableApart own) := by
  have quiet' : ∀ id left, .orderCancelled id left ∉ emittedSince other replaced :=
    fun id left member => by
      have kept : .orderCancelled id left ∈ (emittedSince site modified).filter
          EventBody.exchanges := reports ▸ List.mem_filter.mpr ⟨member, rfl⟩
      exact quiet id left (List.mem_filter.mp kept).1
  have held : replaced.book.lookup own.id = modified.book.lookup replacement.id := by
    rw [alike.book, sameId]
  cases ends with
  | rejected why emitted unused =>
    cases ends' with
    | rejected why => exact absurd (why (by simp [limit])) (not_stoppedAtOnce group)
    | cancelled grouped => exact absurd group grouped
    | filled _ _ whole =>
      rw [← takerFills_exchanged, reports, emitted] at whole
      exact absurd (UInt64.toNat_inj.mp whole.symm) proper
    | rests rests =>
      rw [held, rests] at unused
      contradiction
  | cancelled _ reported => exact absurd reported (quiet' _ _)
  | filled keeps passes _ _ trades =>
    refine .inr ⟨?_, passes, trades quiet'⟩
    obtain ⟨-, kind | kind⟩ := keeps <;> simp [kind]
  | rests rests resting =>
    cases ends' with
    | rejected why => exact absurd (why (by simp [limit])) (not_stoppedAtOnce group)
    | cancelled grouped => exact absurd group grouped
    | filled _ _ _ unused =>
      rw [held, unused] at rests
      contradiction
    | rests rests' resting' behind =>
      rw [held, rests'] at rests
      obtain rfl := Option.some.inj rests
      rw [alike.arena, resting'] at resting
      have same := Option.some.inj resting
      have kind : replacement.orderType = own.orderType := congrArg Order.orderType same
      have groups : replacement.stpGroup.getD stpNone = own.stpGroup.getD stpNone :=
        congrArg Order.stpGroup same
      have shows : replacement.visibleQty.getD _ = own.visibleQty.getD _ :=
        congrArg Order.visibleQuantity same
      rw [group] at groups
      refine .inl ⟨kind.symm.trans limit, groups.symm, fun shown own => ?_⟩
      rw [plain, own] at shows
      rw [← behind keeps' group]
      exact congrArg UInt64.toNat shows.symm

/-! ## The types of resting orders -/

/-- The orders that rest are limit, iceberg and post-only orders. -/
def RestsByType (engine : MatchingEngine config) : Prop :=
  ∀ i order, engine.arena.resting i = some order →
    order.orderType = .limit ∨ order.orderType = .iceberg ∨ order.orderType = .postOnly

/-- Orders that only shrink keep their types. -/
theorem RestsByType.shrinks (types : engine.RestsByType)
    (shrinks : engine.arena.Shrinks other.arena) : other.RestsByType := fun i order rests => by
  obtain ⟨before, delta, old, -, rfl⟩ := shrinks i order rests
  exact types i before old

/-- An order of such a type that rests keeps the types. -/
theorem Rested.types (types : engine.RestsByType)
    (kind : order.orderType = .limit ∨ order.orderType = .iceberg ∨ order.orderType = .postOnly)
    (rested : Rested engine queues order qty after) : after.RestsByType := by
  cases rested with
  | refused => exact types
  | inserted _ inserted =>
    intro i stored rests
    rw [emit_arena, withBook_arena, inserted.resting] at rests
    split at rests
    · obtain rfl := Option.some.inj rests
      exact kind
    · exact types i stored rests

/-- Every part of a call keeps the types. -/
theorem keepsTypes (engine : MatchingEngine config) (command : Command) :
    KeepsBook engine command fun _ arena => ∀ i order, arena.resting i = some order →
      order.orderType = .limit ∨ order.orderType = .iceberg ∨ order.orderType = .postOnly where
  removes {id index order queues book arena} _ _ _ _ removed types :=
    @RestsByType.shrinks _ engine.clearEvents (engine.withBook book arena) types removed.shrinks
  iterates {site order sweep queues flow} sweeps sound iteration types :=
    @RestsByType.shrinks _ sweep.engine _ types (iteration.shrinks sound)
  rests {site order qty queues after} rests sound rested types := by
    have kept : site.RestsByType := types
    refine rested.types kept ?_
    cases rests with
    | posted _ kind => exact .inr (.inr kind)
    | remainder _ _ _ _ _ _ keeps => exact keeps.2.imp_right .inl

/-- The orders that rest in a reachable engine are limit, iceberg and post-only orders. -/
theorem Reachable.types (reachable : Reachable engine) :
    (∃ queues, engine.Sound queues) ∧ engine.RestsByType := by
  refine KeepsBook.reaches (fun engine command _ => keepsTypes engine command) ?_ reachable
  intro capacity i order rests
  have vacant : (Arena.new capacity).resting i = none :=
    Arena.resting_eq_none.mpr (Arena.find_new capacity i)
  change (Arena.new capacity).resting i = some order at rests
  rw [vacant] at rests
  contradiction

/-! ## Withdrawing an order -/

/-- The engine without an order, and the one that has reported its modification. -/
structure Withdrawal (engine : MatchingEngine config) (index : ArenaIndex) (order : Order)
    (newPrice newQty : UInt64) (without site : MatchingEngine config) : Prop where
  /-- The order is removed. -/
  removal : engine.removeMaker index = .ok without
  /-- The engine without it is sound. -/
  sound : ∃ queues, without.Sound queues
  /-- Only the reports are added. -/
  alike : Alike site without
  /-- The order does not rest any more. -/
  fresh : without.book.lookup order.id = none
  /-- Its slot is free. -/
  room : without.arena.freeHead ≠ freeListEnd
  /-- The makers opposite to it stay. -/
  makers : ∀ taker : Taker, taker.side = order.side →
    makersFor taker without = makersFor taker engine
  /-- No report is one of a fill or of a cancellation. -/
  reports : ∃ early, site.bodies = engine.bodies ++ early ∧
    early.filter EventBody.exchanges = [] ∧ without.bodies = engine.bodies

/-- Removing an order leaves its id unused. -/
theorem lookup_none_of_removed {book : OrderBook config.maxTicks} {arena : Arena}
    {index : ArenaIndex} {maker : Order} (sound : engine.Sound queues)
    (removed : Removed engine.book engine.arena queues maker index book arena) :
    book.lookup maker.id = none := by
  cases held : book.lookup maker.id with
  | none => rfl
  | some i =>
    obtain ⟨stored, rests, named⟩ := (removed.represents.indexed maker.id i).mp held
    rw [removed.resting] at rests
    split at rests
    · contradiction
    · rename_i apart
      exact absurd (sound.rep.slot_unique rests removed.found named) apart

/-- A modification withdraws the order and submits its replacement. -/
theorem processModify_withdrawal {index : ArenaIndex} {order : Order}
    {modified : MatchingEngine config} (sound : engine.Sound queues)
    (held : engine.book.lookup order.id = some index) (found : engine.arena.get index = .ok order)
    (returned : engine.processModify order.id newPrice newQty = .ok modified) :
    ∃ without site, Withdrawal engine index order newPrice newQty without site ∧
      site.processNewOrder (replacement order.id order.side newPrice newQty) = .ok modified := by
  have found' := Arena.get_ok.mp found
  unfold processModify withdraw at returned
  simp only [held, found, bind, Except.bind, pure, Except.pure] at returned
  cases removal : engine.removeMaker index with
  | error fault =>
    rw [removal] at returned
    contradiction
  | ok without =>
    rw [removal] at returned
    obtain ⟨book, arena, rfl, removed⟩ := removeMaker_ok sound.rep found' removal
    have fresh : book.lookup order.id = none := by
      rw [← Order.unlinked_id]
      exact lookup_none_of_removed sound removed
    refine ⟨engine.withBook book arena,
      ((engine.withBook book arena).emit (.orderModified order.id newPrice newQty)).emitLevel
        order.side order.price, ⟨removal, ⟨_, removed.represents, removed.tracks sound.tracks⟩,
      ⟨rfl, rfl, rfl, rfl, rfl⟩, fresh, ?_, fun taker onSide => ?_,
      ⟨[.orderModified order.id newPrice newQty, .bookUpdate order.side order.price
        (book.getLevelQty order.side order.price)], ?_, rfl, rfl⟩⟩, returned⟩
    · rw [withBook_arena, removed.freeHead]
      exact ne_freeListEnd sound.rep.slots found'
    · refine removed.makersAhead_other sound.rep ?_
      rw [onSide, Order.unlinked_side]
      cases order.side <;> decide
    · rw [emitLevel_bodies, emit_bodies, List.append_assoc]
      rfl

section Withdrawn

variable {index : ArenaIndex} {order : Order} {visible : Option UInt64} {without modified replaced : MatchingEngine config}
  (withdrawal : Withdrawal engine index order newPrice newQty without site)
  (proper : newQty ≠ 0)
  (types : order.orderType = .limit ∨ order.orderType = .iceberg ∨ order.orderType = .postOnly)
include withdrawal proper types

/-- Where the lost attributes do not matter, the order submitted anew is handled like the
replacement. -/
theorem Withdrawal.resubmitted (keeps : engine.KeepsAttributes order visible newPrice newQty)
    (returned : site.processNewOrder (replacement order.id order.side newPrice newQty) =
      .ok modified) :
    ∃ replaced, without.processNewOrder (order.renewed visible newPrice newQty) = .ok replaced ∧
      Alike modified replaced ∧
      (emittedSince site modified).filter EventBody.exchanges =
        (emittedSince without replaced).filter EventBody.exchanges ∧
      (emittedSince site modified).length = (emittedSince without replaced).length := by
  obtain ⟨queues, sound⟩ := withdrawal.sound
  have alike := withdrawal.alike
  have sound' : site.Sound queues := sound.congr alike.book.symm alike.arena.symm
  have makers : makersFor (takerOf (order.renewed visible newPrice newQty)) site =
      makersFor (takerOf (order.renewed visible newPrice newQty)) engine :=
    (makersFor_congr alike.book alike.arena).symm.trans (withdrawal.makers _ rfl)
  rcases keeps with ⟨limit, group, shows⟩ | ⟨active, passes, enough⟩
  · have same : order.renewed visible newPrice newQty =
        { replacement order.id order.side newPrice newQty with visibleQty := visible } := by
      simp [Order.renewed, replacement, limit, group]
    have handled : site.processNewOrder (order.renewed visible newPrice newQty) =
        .ok modified := by
      rw [same, ← returned]
      cases visible with
      | none => rfl
      | some shown =>
        refine processNewOrder_shown sound' ⟨rfl, .inl rfl⟩ proper (alike.book ▸ withdrawal.fresh)
          rfl rfl ?_
        rw [shows shown rfl, tradableApart, ← makers, same]
        rfl
    obtain ⟨replaced, returned', alike', reports⟩ := alike.processNewOrder handled
    exact ⟨replaced, returned', alike', by rw [reports], by rw [reports]⟩
  · have kind : order.orderType = .limit ∨ order.orderType = .iceberg := by tauto
    have sameTaker : takerOf (replacement order.id order.side newPrice newQty) =
        (takerOf (order.renewed visible newPrice newQty)).ungrouped := by
      rcases kind with limit | iceberg
      · simp [takerOf, Taker.ungrouped, effectivePrice, replacement, Order.renewed, limit]
      · simp [takerOf, Taker.ungrouped, effectivePrice, replacement, Order.renewed, iceberg]
    obtain ⟨replaced, returned', alike', rest, reports, reports'⟩ :=
      processNewOrder_ungrouped sound' alike ⟨rfl, kind⟩ ⟨rfl, .inl rfl⟩ rfl sameTaker rfl proper
        (alike.book ▸ withdrawal.fresh) (by rwa [StoppedAtOnce, makers])
        (by rwa [tradableApart, ← makers] at enough) returned
    exact ⟨replaced, returned', alike', by rw [reports, reports']; rfl, by rw [reports, reports']; rfl⟩

/-- Where the order submitted anew ends like the replacement, the lost attributes do not matter. -/
theorem Withdrawal.attributes
    (returned : site.processNewOrder (replacement order.id order.side newPrice newQty) =
      .ok modified)
    (returned' : without.processNewOrder (order.renewed visible newPrice newQty) = .ok replaced)
    (alike' : Alike modified replaced)
    (reports : (emittedSince site modified).filter EventBody.exchanges =
      (emittedSince without replaced).filter EventBody.exchanges) :
    engine.KeepsAttributes order visible newPrice newQty := by
  obtain ⟨queues, sound⟩ := withdrawal.sound
  have alike := withdrawal.alike
  have sound' : site.Sound queues := sound.congr alike.book.symm alike.arena.symm
  have makers : makersFor (takerOf (order.renewed visible newPrice newQty)) without =
      makersFor (takerOf (order.renewed visible newPrice newQty)) engine := withdrawal.makers _ rfl
  have ends : Ends without replaced (order.renewed visible newPrice newQty) := by
    rcases types with limit | iceberg | postOnly
    · exact (ends_of_keeps sound withdrawal.fresh withdrawal.room proper ⟨rfl, .inl limit⟩
        returned').1
    · exact (ends_of_keeps sound withdrawal.fresh withdrawal.room proper ⟨rfl, .inr iceberg⟩
        returned').1
    · exact ends_of_postOnly sound withdrawal.fresh withdrawal.room postOnly returned'
  obtain ⟨ends', quiet⟩ := ends_of_keeps sound' (alike.book ▸ withdrawal.fresh)
    (alike.arena ▸ withdrawal.room) proper ⟨rfl, .inl rfl⟩ returned
  rcases ends.attributes ends' (quiet rfl) rfl proper ⟨rfl, .inl rfl⟩ rfl rfl rfl alike' reports with
    ⟨limit, group, shows⟩ | ⟨active, passes, enough⟩
  · have apart : order.stpGroup = stpNone := by
      by_contra grouped
      simp [Order.renewed, grouped] at group
    have sameTaker : takerOf (replacement order.id order.side newPrice newQty) =
        takerOf (order.renewed visible newPrice newQty) := by
      have kind : order.orderType = .limit := limit
      simp [takerOf, effectivePrice, replacement, Order.renewed, kind, apart]
    refine .inl ⟨limit, apart, fun shown own => ?_⟩
    rw [shows shown own, tradableApart, tradableApart, sameTaker,
      ← makersFor_congr alike.book alike.arena, makers]
    rfl
  · exact .inr ⟨active, by rwa [StoppedAtOnce, makers] at passes,
      by rwa [tradableApart, makers] at enough⟩

end Withdrawn

/-- A modification, to some quantity, of an order that rests is its cancellation and replacement,
whatever its visible quantity, exactly when the order is a limit order without a self-trade group
whose visible quantity is none or what would rest, or is not post-only and, when submitted anew, is
not turned away and can trade its whole quantity before it meets a live maker of its group. -/
theorem modify_replaces_iff (config : InstrumentConfig) (engine : MatchingEngine config)
    (index : ArenaIndex) (order : Order) (visible : Option UInt64) (newPrice newQty : UInt64)
    (after : MatchingEngine config) (reachable : Reachable engine)
    (held : engine.book.lookup order.id = some index)
    (found : engine.arena.get index = .ok order) (proper : 0 < newQty)
    (completed : engine.process (.modifyOrder order.id newPrice newQty) = .ok after) :
    CancelsAndReplaces engine index order visible newPrice newQty after ↔
      KeepsAttributes engine order visible newPrice newQty := by
  obtain ⟨⟨queues, sound⟩, types⟩ := reachable.types
  have cleared : engine.clearEvents.Sound queues := sound.congr rfl rfl
  have nonzero : newQty ≠ 0 := UInt64.pos_iff_ne_zero.mp proper
  have kind : order.orderType = .limit ∨ order.orderType = .iceberg ∨
      order.orderType = .postOnly :=
    types index order.unlinked (Arena.resting_of_find (Arena.get_ok.mp found))
  obtain ⟨modified, dispatched, drains, fits⟩ := process_drained completed
  have dispatched' : engine.clearEvents.processModify order.id newPrice newQty = .ok modified :=
    dispatched
  obtain ⟨without, site, withdrawal, returned⟩ :=
    processModify_withdrawal cleared held found dispatched'
  obtain ⟨queues', sound'⟩ := withdrawal.sound
  have siteSound : site.Sound queues' :=
    sound'.congr withdrawal.alike.book.symm withdrawal.alike.arena.symm
  obtain ⟨early, appended, plain, bodies⟩ := withdrawal.reports
  have emitted : emittedSince engine.clearEvents site = early := emittedSince_eq appended
  have begins : Extends engine.clearEvents site := ⟨early, appended.symm⟩
  have further : Extends site modified := (processNewOrder_cases siteSound returned).extends siteSound
  have commands : (emittedSince engine.clearEvents modified).filter EventBody.exchanges =
      (emittedSince site modified).filter EventBody.exchanges := by
    rw [emittedSince_trans begins further, List.filter_append, emitted, plain, List.nil_append]
  constructor
  · rintro ⟨without', removal, ⟨modified', replaced, dispatched'', returned', alike⟩, -⟩
    obtain rfl := Except.ok.inj (withdrawal.removal.symm.trans removal)
    obtain rfl := Except.ok.inj (dispatched'.symm.trans dispatched'')
    exact withdrawal.attributes nonzero kind returned returned' alike.alike
      (commands.symm.trans alike.reports)
  · intro keeps
    obtain ⟨replaced, returned', alike, reports, lengths⟩ :=
      withdrawal.resubmitted nonzero kind keeps returned
    refine ⟨without, withdrawal.removal, ⟨modified, replaced, dispatched', returned', alike,
      commands.trans reports⟩, fun instrumentId => ?_⟩
    obtain ⟨after', drains', alike', reports'⟩ :=
      alike.drainStopTriggers drains
    obtain ⟨queues'', modifiedSound⟩ :=
      (processNewOrder_cases siteSound returned).sound siteSound
    have replacedSound : replaced.Sound queues'' :=
      modifiedSound.congr alike.book alike.arena
    have drained := drain_extends modifiedSound drains
    have drained' := drain_extends replacedSound drains'
    have empty : without.eventBuf = [] := List.map_eq_nil_iff.mp bodies
    have cleared' : without.clearEvents = without := by
      rw [clearEvents, ← empty]
    have further' : Extends without replaced :=
      (processNewOrder_cases sound' returned').extends sound'
    have since : emittedSince engine.clearEvents after =
        emittedSince engine.clearEvents modified ++ emittedSince modified after :=
      emittedSince_trans (begins.trans further) drained
    have since' : emittedSince without after' =
        emittedSince without replaced ++ emittedSince replaced after' :=
      emittedSince_trans further' drained'
    have room : after'.eventBuf.length ≤ maxEventsPerCall := by
      have whole : after.eventBuf.length = (emittedSince engine.clearEvents after).length := by
        simp [emittedSince, MatchingEngine.bodies, clearEvents]
      have whole' : after'.eventBuf.length = (emittedSince without after').length := by
        simp [emittedSince, MatchingEngine.bodies, empty]
      rw [since, List.length_append, emittedSince_trans begins further, List.length_append] at whole
      rw [since', List.length_append] at whole'
      rw [reports'] at whole
      omega
    refine ⟨after', ?_, alike', ?_⟩
    · simp [process, processUnbounded, dispatch, cleared', returned', drains', room, bind,
        Except.bind, pure, Except.pure]
    · rw [since, since', List.filter_append, List.filter_append, reports', commands.trans reports]

/-- An iceberg bid of five is moved to where an ask of ten rests, and down to four: it is filled as
it would be as an iceberg. -/
theorem modified_iceberg_filled :
    ∃ (engine : MatchingEngine (smallConfig .cancelNewest)) (order : Order)
      (after : MatchingEngine (smallConfig .cancelNewest)),
      order.orderType = .iceberg ∧ order.Shows (some 2) ∧
        CancelsAndReplaces engine 1 order (some 2) 2 4 after := by
  obtain ⟨engine, reachable, shown⟩ := Reachable.exists_run
    (fun engine : MatchingEngine (smallConfig .cancelNewest) =>
      (engine.process (.modifyOrder 2 2 4)).toOption.any fun after =>
        (engine.arena.get 1).toOption.any fun order =>
          engine.book.lookup 2 == some 1 && order.id == 2 && order.orderType == .iceberg &&
            order.visibleQuantity == 2 && decide (engine.KeepsAttributes order (some 2) 2 4)) 8
    [.submit (.gtc 1 .ask 2 10),
      .submit { NewOrder.gtc 2 .bid 1 5 with orderType := .iceberg, visibleQty := some 2 }]
    (by decide +kernel)
  obtain ⟨after, completed, facts⟩ := (Option.any_eq_true _ _).mp shown
  obtain ⟨order, found, facts⟩ := (Option.any_eq_true _ _).mp facts
  simp only [Bool.and_eq_true, beq_iff_eq, decide_eq_true_eq] at facts
  obtain ⟨⟨⟨⟨held, named⟩, iceberg⟩, shows⟩, keeps⟩ := facts
  refine ⟨engine, order, after, iceberg, shows.symm, (modify_replaces_iff _ engine 1 order (some 2)
    2 4 after reachable (named.symm ▸ held) (ok_of_toOption found) (by decide) ?_).mpr keeps⟩
  rw [named]
  exact ok_of_toOption completed

/-- A post-only bid is moved to where an ask rests: it takes from the ask, whatever its visible
quantity is taken to be. -/
theorem modified_postOnly_takes :
    ¬∀ (engine : MatchingEngine (smallConfig .cancelNewest)) index order newPrice newQty after,
      Reachable engine → engine.book.lookup order.id = some index →
      engine.arena.get index = .ok order → 0 < newQty →
      engine.process (.modifyOrder order.id newPrice newQty) = .ok after →
      ∃ visible, order.Shows visible ∧
        CancelsAndReplaces engine index order visible newPrice newQty after := by
  intro always
  obtain ⟨engine, reachable, shown⟩ := Reachable.exists_run
    (fun engine : MatchingEngine (smallConfig .cancelNewest) =>
      (engine.process (.modifyOrder 2 2 5)).toOption.any fun _ =>
        (engine.arena.get 1).toOption.any fun order =>
          engine.book.lookup 2 == some 1 && order.id == 2 &&
            (engine.clearEvents.processModify 2 2 5).toOption.any fun modified =>
              (engine.clearEvents.removeMaker 1).toOption.any fun without =>
                [none, some order.visibleQuantity].all fun visible =>
                  (without.processNewOrder (order.renewed visible 2 5)).toOption.any fun replaced =>
                    (emittedSince engine.clearEvents modified).filter EventBody.exchanges !=
                      (emittedSince without replaced).filter EventBody.exchanges) 8
    [.submit (.gtc 1 .ask 2 10), .submit { NewOrder.gtc 2 .bid 1 5 with orderType := .postOnly }]
    (by decide +kernel)
  obtain ⟨after, completed, facts⟩ := (Option.any_eq_true _ _).mp shown
  obtain ⟨order, found, facts⟩ := (Option.any_eq_true _ _).mp facts
  simp only [Bool.and_eq_true, beq_iff_eq] at facts
  obtain ⟨⟨held, named⟩, facts⟩ := facts
  obtain ⟨modified, modifies, facts⟩ := (Option.any_eq_true _ _).mp facts
  obtain ⟨without, removal, facts⟩ := (Option.any_eq_true _ _).mp facts
  obtain ⟨visible, shows, without', removal',
      ⟨modified', replaced', modifies', replaces', alike⟩, -⟩ :=
    always engine 1 order 2 5 after reachable (named.symm ▸ held) (ok_of_toOption found)
      (by decide) (named.symm ▸ ok_of_toOption completed)
  have listed : visible ∈ [none, some order.visibleQuantity] := by
    cases visible with
    | none => exact List.mem_cons_self
    | some shown => exact List.mem_cons_of_mem _ (List.mem_singleton.mpr (congrArg some shows))
  obtain ⟨replaced, replaces, apart⟩ :=
    (Option.any_eq_true _ _).mp (List.all_eq_true.mp facts visible listed)
  obtain rfl := Except.ok.inj ((ok_of_toOption removal).symm.trans removal')
  rw [named, ok_of_toOption modifies] at modifies'
  obtain rfl := Except.ok.inj modifies'
  obtain rfl := Except.ok.inj ((ok_of_toOption replaces).symm.trans replaces')
  exact (bne_iff_ne.mp apart) alike.reports

end MatchingEngine

end MatchX
