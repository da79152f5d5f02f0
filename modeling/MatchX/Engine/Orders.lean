import MatchX.Engine.Iteration

/-!
# Handling one order

What `process_new_order` does with an order: it refuses it, parks it as a stop, rests it
without matching, or matches it and settles the remainder. Each outcome is stated with all it
changes of the engine.
-/

namespace MatchX

open MatchX.Support

/-- The order that rests when a quantity of a submitted order is inserted. -/
def NewOrder.resting (order : NewOrder) (qty : UInt64) : Order :=
  Order.submitted order.id order.side order.price qty order.orderType order.visibleQty
    order.stpGroup

/-- The order is one that is matched on arrival. -/
def NewOrder.Matched (order : NewOrder) : Prop :=
  order.orderType ≠ .postOnly ∧ order.orderType ≠ .stopLimit

/-- The remainder of the order rests. -/
def NewOrder.Keeps (order : NewOrder) : Prop :=
  order.timeInForce = .gtc ∧ (order.orderType = .limit ∨ order.orderType = .iceberg)

instance (order : NewOrder) : Decidable order.Matched := by unfold NewOrder.Matched; infer_instance

instance (order : NewOrder) : Decidable order.Keeps := by unfold NewOrder.Keeps; infer_instance

namespace MatchingEngine

variable {config : InstrumentConfig} {engine engine' : MatchingEngine config} {queues : Queues}
  {order : NewOrder} {qty : UInt64}

/-- The engine after it reports an order as accepted. -/
def accept (engine : MatchingEngine config) (order : NewOrder) : MatchingEngine config :=
  engine.emit (.orderAccepted order.id order.side order.price order.qty order.orderType)

@[simp] theorem accept_book : (engine.accept order).book = engine.book := rfl
@[simp] theorem accept_arena : (engine.accept order).arena = engine.arena := rfl
@[simp] theorem accept_stopBids : (engine.accept order).stopBids = engine.stopBids := rfl
@[simp] theorem accept_stopAsks : (engine.accept order).stopAsks = engine.stopAsks := rfl
@[simp] theorem accept_lastTradePrice :
    (engine.accept order).lastTradePrice = engine.lastTradePrice := rfl
@[simp] theorem accept_bodies : (engine.accept order).bodies = engine.bodies ++
    [.orderAccepted order.id order.side order.price order.qty order.orderType] := by
  simp [accept]

/-- Reporting an order as accepted keeps the engine sound. -/
theorem Sound.accept (sound : engine.Sound queues) (order : NewOrder) :
    (engine.accept order).Sound queues := sound.congr rfl rfl

/-- Resting a quantity of an order: the book refuses it or appends it to its level. The feed
is given the quantity either way. -/
inductive Rested (engine : MatchingEngine config) (queues : Queues) (order : NewOrder)
    (qty : UInt64) : MatchingEngine config → Prop
  /-- The id rests already, or no slot is free. -/
  | refused (why : engine.book.lookup order.id ≠ none ∨ engine.arena.freeHead = freeListEnd) :
    Rested engine queues order qty (engine.emit (.bookUpdate order.side order.price qty))
  /-- The order is the last one of its level. -/
  | inserted {index book arena} (room : engine.arena.freeHead ≠ freeListEnd)
      (inserted : Inserted engine.book engine.arena queues (order.resting qty) index book arena) :
    Rested engine queues order qty
      ((engine.withBook book arena).emit (.bookUpdate order.side order.price qty))

/-- Resting an order never faults. -/
theorem restOrder_cases (rep : Represents engine.book engine.arena queues) (order : NewOrder)
    (qty : UInt64) :
    ∃ engine', engine.restOrder order qty = .ok engine' ∧ Rested engine queues order qty engine' := by
  unfold restOrder
  rcases insertOrder_spec rep order.id order.side order.price qty order.orderType
    order.visibleQty order.stpGroup with
    ⟨refused, why⟩ | ⟨index, book, arena, accepted, room, inserted⟩
  · exact ⟨_, by rw [refused]; rfl, .refused why⟩
  · exact ⟨_, by rw [accepted]; rfl, .inserted room inserted⟩

/-- Resting an order keeps the engine sound. -/
theorem Rested.sound (sound : engine.Sound queues) (rested : Rested engine queues order qty engine') :
    ∃ queues', engine'.Sound queues' := by
  cases rested with
  | refused => exact ⟨queues, sound.congr rfl rfl⟩
  | inserted _ inserted => exact ⟨_, inserted.represents, inserted.tracks sound.tracks⟩

/-- What becomes of the remainder of an order that was matched. -/
inductive Settled (result : SweepResult config) (queues : Queues) (order : NewOrder) :
    MatchingEngine config → Prop
  /-- Self-trade prevention cancels it. -/
  | prevented (stopped : result.cancelIncoming = true) :
    Settled result queues order (result.engine.emit (.orderCancelled order.id result.remaining))
  /-- There is none. -/
  | filled (free : result.cancelIncoming = false) (nothing : result.remaining = 0) :
    Settled result queues order result.engine
  /-- It rests. -/
  | rested {engine' : MatchingEngine config} (free : result.cancelIncoming = false) (left : result.remaining ≠ 0)
      (keeps : order.Keeps)
      (rested : Rested result.engine queues order result.remaining engine') :
    Settled result queues order engine'
  /-- It is cancelled. -/
  | dropped (free : result.cancelIncoming = false) (left : result.remaining ≠ 0)
      (drops : ¬order.Keeps) :
    Settled result queues order (result.engine.emit (.orderCancelled order.id result.remaining))

/-- The remainder of an order that was matched is settled in one of the ways listed. -/
theorem settleRemainder_cases {result : SweepResult config} (sound : result.engine.Sound queues)
    (matched : order.Matched) (returned : settleRemainder result order = .ok engine') :
    Settled result queues order engine' := by
  unfold settleRemainder at returned
  cases stopped : result.cancelIncoming with
  | true =>
    simp only [stopped, if_true, Except.ok.injEq] at returned
    obtain rfl := returned
    exact .prevented stopped
  | false =>
    simp only [stopped, Bool.false_eq_true, if_false] at returned
    by_cases nothing : result.remaining = 0
    · rw [if_pos nothing] at returned
      obtain rfl := Except.ok.inj returned
      exact .filled stopped nothing
    · rw [if_neg nothing] at returned
      obtain ⟨rested, returned', rests⟩ := restOrder_cases sound.rep order result.remaining
      by_cases keeps : order.Keeps
      · refine .rested stopped nothing keeps ?_
        obtain ⟨gtc, limit | iceberg⟩ := keeps
        · simp only [gtc, limit, returned', Except.ok.injEq] at returned
          exact returned ▸ rests
        · simp only [gtc, iceberg, returned', Except.ok.injEq] at returned
          exact returned ▸ rests
      · have dropped : engine' =
            result.engine.emit (.orderCancelled order.id result.remaining) := by
          obtain ⟨id, side, price, total, orderType, timeInForce, visible, stop, group⟩ := order
          cases orderType <;> cases timeInForce <;>
            simp [NewOrder.Matched, NewOrder.Keeps] at matched keeps returned ⊢ <;>
            exact returned.symm
        subst dropped
        exact .dropped stopped nothing keeps

/-- What becomes of an order. -/
inductive Handled (engine : MatchingEngine config) (queues : Queues) (order : NewOrder) :
    MatchingEngine config → Prop
  /-- It is refused. -/
  | rejected (reason : RejectReason) :
    Handled engine queues order (engine.emitRejected order.id reason)
  /-- It waits for its stop price. -/
  | parked {engine' : MatchingEngine config} (kind : order.orderType = .stopLimit)
      (stopped : engine.processStopLimit order = engine')
      (book : engine'.book = engine.book) (arena : engine'.arena = engine.arena)
      (bodies : engine'.bodies = (engine.accept order).bodies) :
    Handled engine queues order engine'
  /-- It rests, as a post-only order that does not cross the best opposing price. -/
  | posted {engine' : MatchingEngine config} (kind : order.orderType = .postOnly)
      (apart : ∀ price, engine.book.best order.side.opposite = some price →
        isPriceAcceptable order.side order.price price = false)
      (rested : Rested (engine.accept order) queues order order.qty engine') :
    Handled engine queues order engine'
  /-- It is matched. -/
  | matched {result : SweepResult config} {queues' : Queues} {engine' : MatchingEngine config}
      (kind : order.Matched)
      (checks : engine.refusal order = .ok none)
      (swept : (engine.accept order).matchAgainstBook (takerOf order) order.qty = .ok result)
      (sound : result.engine.Sound queues') (settled : Settled result queues' order engine') :
    Handled engine queues order engine'

/-- A sweep that ends leaves a sound engine. -/
theorem matchAgainstBook_sound {taker : Taker} {result : SweepResult config}
    (sound : engine.Sound queues)
    (swept : engine.matchAgainstBook taker qty = .ok result) :
    ∃ queues', result.engine.Sound queues' := by
  obtain ⟨last, visits, exit⟩ := loop_exit swept
  obtain ⟨queues', sound'⟩ := sound_of_visits sound visits
  exact (matchStep_cases sound' exit).sound sound'

/-- What the checks of an order that is matched have found. -/
theorem refusal_none (checked : engine.refusal order = .ok none) :
    order.qty ≠ 0 ∧ engine.book.lookup order.id = none ∧
    (order.timeInForce = .fok →
      order.qty ≤ engine.checkAvailableLiquidity order.side (effectivePrice order)) ∧
    ∀ group, order.stpGroup = some group → config.stpMode = .cancelNewest →
      engine.stpFirstMakerMatches order.side (effectivePrice order) group = .ok false := by
  unfold refusal at checked
  simp only [bind, Except.bind, pure, Except.pure] at checked
  split at checked
  · cases checked
  rename_i proper
  split at checked
  · cases checked
  rename_i unused
  split at checked
  · cases checked
  rename_i enough
  refine ⟨proper, by simpa using unused, fun fok => ?_, fun group grouped mode => ?_⟩
  · exact UInt64.not_lt.mp fun short => enough ⟨fok, short⟩
  · simp only [grouped, mode, if_true] at checked
    split at checked
    · contradiction
    · rename_i first found
      cases first with
      | true => cases checked
      | false => exact found

/-- An order whose remainder rests is matched up to its own price. -/
theorem effectivePrice_of_keeps (keeps : order.Keeps) : effectivePrice order = order.price := by
  obtain ⟨-, limit | iceberg⟩ := keeps
  · simp [effectivePrice, limit]
  · simp [effectivePrice, iceberg]

/-- A post-only order crosses when it would accept the best opposing price. -/
theorem processPostOnly_eq : engine.processPostOnly order =
    if (engine.book.best order.side.opposite).any (isPriceAcceptable order.side order.price) then
      .ok (engine.emitRejected order.id .wouldCrossSpread)
    else (engine.accept order).restOrder order order.qty := by
  unfold processPostOnly accept
  cases order.side <;> rfl

/-- A post-only order that does not cross rests; another one is rejected. -/
theorem processPostOnly_cases (sound : engine.Sound queues) (kind : order.orderType = .postOnly)
    (returned : engine.processPostOnly order = .ok engine') :
    Handled engine queues order engine' := by
  rw [processPostOnly_eq] at returned
  split at returned
  · obtain rfl := Except.ok.inj returned
    exact .rejected _
  · rename_i apart
    obtain ⟨rested, returned', rests⟩ := restOrder_cases
      (sound.accept order).rep order order.qty
    have same : Except.ok engine' = Except.ok rested := returned.symm.trans returned'
    obtain rfl := Except.ok.inj same
    refine .posted kind (fun price best => ?_) rests
    rw [best] at apart
    simpa using apart

/-- A stop-limit order that passes its checks waits for its stop price; another one is
rejected. -/
theorem processStopLimit_cases (kind : order.orderType = .stopLimit) :
    Handled engine queues order (engine.processStopLimit order) := by
  generalize stopped : engine.processStopLimit order = engine'
  have waits := stopped
  unfold processStopLimit at waits
  split at waits
  · exact waits ▸ .rejected _
  split at waits
  · exact waits ▸ .rejected _
  dsimp only at waits
  split at waits
  · exact .parked kind stopped (waits ▸ rfl) (waits ▸ rfl) (waits ▸ rfl)
  · exact .parked kind stopped (waits ▸ rfl) (waits ▸ rfl) (waits ▸ rfl)

/-- An order of another type is checked, and matched when it passes. -/
theorem processNewOrder_matched (kind : order.Matched) :
    engine.processNewOrder order = (do
      match ← engine.refusal order with
      | some reason => return engine.emitRejected order.id reason
      | none =>
        let result ← (engine.accept order).matchAgainstBook (takerOf order) order.qty
        settleRemainder result order) := by
  unfold processNewOrder
  obtain ⟨notPostOnly, notStopLimit⟩ := kind
  split
  · contradiction
  · contradiction
  · rfl

/-- `process_new_order` does one of the things listed. -/
theorem processNewOrder_cases (sound : engine.Sound queues)
    (returned : engine.processNewOrder order = .ok engine') :
    Handled engine queues order engine' := by
  by_cases kind : order.Matched
  · rw [processNewOrder_matched kind] at returned
    cases checks : engine.refusal order with
    | error fault =>
      rw [checks] at returned
      contradiction
    | ok reason =>
      simp only [checks, bind, Except.bind] at returned
      cases reason with
      | some reason =>
        obtain rfl := Except.ok.inj returned
        exact .rejected reason
      | none =>
        cases swept : (engine.accept order).matchAgainstBook (takerOf order) order.qty with
        | error fault =>
          simp only [swept] at returned
          contradiction
        | ok result =>
          simp only [swept] at returned
          obtain ⟨queues', sound'⟩ := matchAgainstBook_sound (sound.accept order) swept
          have settled := settleRemainder_cases sound' kind returned
          exact .matched kind checks swept sound' settled
  · unfold processNewOrder at returned
    split at returned
    · rename_i kind
      exact processPostOnly_cases sound kind returned
    · rename_i kind
      obtain rfl := Except.ok.inj returned
      exact processStopLimit_cases kind
    · rename_i notPostOnly notStopLimit
      exact absurd ⟨notPostOnly, notStopLimit⟩ kind

/-- Handling an order keeps the engine sound. -/
theorem Handled.sound (sound : engine.Sound queues)
    (handled : Handled engine queues order engine') : ∃ queues', engine'.Sound queues' := by
  cases handled with
  | rejected reason => exact ⟨queues, sound.congr rfl rfl⟩
  | parked _ _ book arena => exact ⟨queues, sound.congr book arena⟩
  | posted _ _ rested => exact Rested.sound (sound.accept order) rested
  | matched _ _ _ sound' settled =>
    cases settled with
    | prevented | filled | dropped => exact ⟨_, sound'.congr rfl rfl⟩
    | rested _ _ _ rested => exact rested.sound sound'

end MatchingEngine

end MatchX
