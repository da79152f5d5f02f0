import MatchX.Engine.LiveIds

/-!
# Cancels

A cancel removes the order that rests under an id. An id that is live nowhere stays so, and no
fill and no triggered stop names it, until a new order is submitted under it.
-/

namespace MatchX

open MatchX.Support

namespace MatchingEngine

variable {config : InstrumentConfig} {engine engine' : MatchingEngine config} {queues : Queues}
  {taker : Taker} {sweep : Sweep config} {flow : Flow (Sweep config) (SweepResult config)}
  {command : Command} {order : NewOrder} {id : OrderId}

/-- A fill or a triggered stop names an id. -/
def names (id : OrderId) : EventBody → Bool
  | .fill makerId takerId _ _ _ _ => makerId == id || takerId == id
  | .stopTriggered stopId newOrderId => stopId == id || newOrderId == id
  | _ => false

/-- An iteration reports no stop as triggered. -/
theorem Iteration.untriggered {flow : Flow (Sweep config) (SweepResult config)}
    (iteration : Iteration taker queues sweep flow) (stopId newOrderId : OrderId) :
    .stopTriggered stopId newOrderId ∉ emittedSince sweep.engine (flowEngine flow) := by
  cases iteration <;> simp [emittedSince, flowEngine]

/-- Only the drain reports stops as triggered. -/
theorem Handled.untriggered (sound : engine.Sound queues)
    (handled : Handled engine queues order engine') :
    ∀ body ∈ emittedSince engine engine', ∀ stopId newOrderId,
      body ≠ .stopTriggered stopId newOrderId := by
  cases handled with
  | rejected reason =>
    rw [emittedSince_eq (emitRejected_bodies engine order.id reason)]
    simp
  | parked _ _ _ _ bodies =>
    rw [emittedSince_eq (bodies.trans accept_bodies)]
    simp
  | posted _ _ rested =>
    have bodies := rested.bodies_eq
    rw [accept_bodies, List.append_assoc] at bodies
    rw [emittedSince_eq bodies]
    simp
  | matched _ _ swept _ settled =>
    obtain ⟨⟨reports, appended⟩, each⟩ := swept_emitted
      (fun body => ∀ stopId newOrderId, body ≠ .stopTriggered stopId newOrderId)
      (sound.accept order) (fun sweep flow visits step body member stopId newOrderId same => by
        obtain ⟨queues', sound'⟩ := sound_of_visits (sound.accept order) visits
        exact (matchStep_cases sound' step).untriggered stopId newOrderId (same ▸ member)) swept
    obtain ⟨tail, bodies, kinds⟩ := settled.bodies_eq
    rw [emittedSince_eq appended.symm] at each
    rw [← appended, accept_bodies, List.append_assoc, List.append_assoc] at bodies
    rw [emittedSince_eq bodies]
    intro body member
    simp only [List.mem_append, List.mem_singleton] at member
    rcases member with rfl | inSweep | inTail
    · simp
    · exact each body inSweep
    · rcases kinds with rfl | rfl | rfl <;> simp at inTail <;> simp [inTail]

/-- Every order that rests at some state of a sweep rested before it. -/
theorem visits_rests {start : Sweep config} {i : ArenaIndex} {maker : Order}
    (sound : start.engine.Sound queues) (visits : Visits (matchStep taker) start sweep)
    (rests : sweep.engine.arena.resting i = some maker) :
    start.engine.restingOrder maker.id ≠ none := by
  obtain ⟨-, shrinks⟩ := visits_keeps (fun state => start.engine.arena.Shrinks state.arena)
    (fun _ _ _ _ sound' before _ iteration =>
      before.trans sound.rep.toQueued (iteration.shrinks sound'))
    sound (Arena.Shrinks.refl _) visits
  obtain ⟨before, delta, rests', -, rfl⟩ := shrinks i maker rests
  have held := sound.rep.restingOrder_iff.mpr ⟨i, rests', rfl⟩
  rw [restingOrder, show (before.fill delta).id = before.id from rfl, held]
  simp

/-- Handling an order names its id and those of orders that rest, and no other. -/
theorem Handled.names (sound : engine.Sound queues)
    (handled : Handled engine queues order engine') (unused : engine.restingOrder id = none)
    (other : order.id ≠ id) : ∀ body ∈ emittedSince engine engine', names id body = false := by
  intro body member
  cases body with
  | fill makerId takerId price qty makerLeft takerLeft =>
    obtain ⟨-, -, sweep, flow, visits, step, emitted⟩ := handled.filled sound member
    obtain ⟨queues', sound'⟩ := sound_of_visits (sound.accept order) visits
    obtain ⟨index, maker, front, -, -, rfl, rfl, -⟩ :=
      (matchStep_cases sound' step).filled emitted
    have rested : engine.restingOrder maker.unlinked.id ≠ none :=
      visits_rests (sound.accept order) visits (Arena.resting_of_find front.found)
    have apart : maker.id ≠ id := fun same => rested (same ▸ unused)
    simp [MatchingEngine.names, apart, takerOf, other]
  | stopTriggered stopId newOrderId => exact absurd rfl (handled.untriggered sound _ member _ _)
  | _ => rfl

/-- An id is live nowhere, and no event of the call so far names it. -/
structure Gone (id : OrderId) (state : MatchingEngine config) : Prop where
  /-- The engine is sound. -/
  sound : ∃ queues, state.Sound queues
  /-- The id is not live. -/
  dead : ¬state.Live id
  /-- No fill and no triggered stop of the call names it. -/
  unnamed : ∀ body ∈ state.bodies, names id body = false

/-- Where an id is live is a matter of the book, the orders in it and the pending stops. -/
theorem Live.congr (live : engine'.Live id) (book : engine'.book = engine.book)
    (arena : engine'.arena = engine.arena) (bids : engine'.stopBids = engine.stopBids)
    (asks : engine'.stopAsks = engine.stopAsks) : engine.Live id := by
  rwa [Live, restingOrder, pendingIds, book, arena, bids, asks] at live

/-- An id that is live nowhere stays so after reports that do not name it. -/
theorem Gone.quiet {bodies : List EventBody} (gone : Gone id engine)
    (appended : engine'.bodies = engine.bodies ++ bodies)
    (silent : ∀ body ∈ bodies, names id body = false) (book : engine'.book = engine.book)
    (arena : engine'.arena = engine.arena) (bids : engine'.stopBids = engine.stopBids)
    (asks : engine'.stopAsks = engine.stopAsks) : Gone id engine' where
  sound := gone.sound.imp fun _ sound => sound.congr book arena
  dead live := gone.dead (live.congr book arena bids asks)
  unnamed body member := by
    rw [appended, List.mem_append] at member
    exact member.elim (gone.unnamed body) (silent body)

/-- An id that is live nowhere stays so when another order is removed. -/
theorem Gone.removed {bodies : List EventBody} {index : ArenaIndex} {maker : Order}
    (gone : Gone id engine) (sound : engine.Sound queues) (sound' : ∃ queues', engine'.Sound queues')
    (removed : Removed engine.book engine.arena queues maker.unlinked index engine'.book
      engine'.arena)
    (appended : engine'.bodies = engine.bodies ++ bodies)
    (silent : ∀ body ∈ bodies, names id body = false)
    (pending : engine'.pendingIds = engine.pendingIds) : Gone id engine' where
  sound := sound'
  dead live := by
    refine gone.dead (live.imp (fun rests unused => rests ?_) fun waits => pending ▸ waits)
    have resting : engine'.restingOrder id =
        if id = maker.unlinked.id then none else engine.restingOrder id :=
      removed.restingOrder sound.rep
    rw [resting, unused]
    split <;> rfl
  unnamed body member := by
    rw [appended, List.mem_append] at member
    exact member.elim (gone.unnamed body) (silent body)

/-- A call that submits no new order under an id that is live nowhere leaves it so, and no event of
the call names it. -/
theorem gone_carried (other : ∀ instrumentId order, command = .newOrder instrumentId order →
      order.id ≠ id) :
    Carries engine command (Gone id) fun site order => Gone id site ∧ order.id ≠ id where
  cancels id' after asked gone returned := by
    obtain ⟨queues, sound⟩ := gone.sound
    have sound' := (sound_kept engine command).cancels id' after asked ⟨queues, sound⟩ returned
    cases processCancel_cases sound returned with
    | missing => exact gone.quiet (emitRejected_bodies _ _ _) (by simp [names]) rfl rfl rfl rfl
    | removed _ _ _ removed =>
      exact gone.removed sound sound' removed
        (by rw [emitLevel_bodies, emit_bodies, List.append_assoc]; rfl) (by simp [names]) rfl
  misses id' _ _ _ gone := gone.quiet (emitRejected_bodies _ _ _) (by simp [names]) rfl rfl rfl rfl
  direct instrumentId order asked gone := ⟨gone, other instrumentId order asked⟩
  withdraws id' newPrice newQty index site order asked gone held withdrawn := by
    obtain ⟨queues, sound⟩ := gone.sound
    have sound' := (sound_kept engine command).withdraws id' newPrice newQty index site order asked
      ⟨queues, sound⟩ held withdrawn
    obtain ⟨stored, found, named⟩ := sound.held held
    have rests : engine.clearEvents.restingOrder id' ≠ none := by
      have resting := sound.rep.restingOrder_iff.mpr ⟨index, Arena.resting_of_find found, named⟩
      rw [restingOrder, resting]
      simp
    have apart : id' ≠ id := fun same => gone.dead (.inl (same ▸ rests))
    cases withdraw_cases sound held withdrawn with
    | removed found' removed =>
      exact ⟨gone.removed sound sound' removed
        (by rw [emitLevel_bodies, emit_bodies, List.append_assoc]; rfl) (by simp [names]) rfl, apart⟩
  fires start before site order _ fired gone := by
    obtain ⟨side, stopPx, entry, rfl, popped⟩ := fired.popped
    have ids := popped.pendingIds
    have apart : entry.id ≠ id := fun same =>
      gone.dead (.inr (same ▸ ids.mem_iff.mpr List.mem_cons_self))
    obtain ⟨queues, sound⟩ := gone.sound
    refine ⟨⟨⟨queues, sound.congr popped.book popped.arena⟩, ?_, ?_⟩, apart⟩
    · rintro (rests | waits)
      · rw [restingOrder, popped.book, popped.arena] at rests
        exact gone.dead (.inl rests)
      · exact gone.dead (.inr (ids.mem_iff.mpr (List.mem_cons_of_mem _ waits)))
    · rw [popped.bodies]
      intro body member
      rw [List.mem_append, List.mem_singleton] at member
      rcases member with early | rfl
      · exact gone.unnamed body early
      · simp [names, apart]
  handles site order after _ := by
    rintro ⟨gone, apart⟩ returned
    obtain ⟨queues, sound⟩ := gone.sound
    have handled := processNewOrder_cases sound returned
    obtain ⟨later, appended⟩ := handled.extends sound
    have unused : site.restingOrder id = none := by
      by_contra rests
      exact gone.dead (.inl rests)
    refine ⟨handled.sound sound, fun live => ?_, fun body member => ?_⟩
    · exact (handled.live sound live).elim gone.dead fun same => apart same.symm
    · rw [← appended, List.mem_append] at member
      rcases member with early | late
      · exact gone.unnamed body early
      · exact handled.names sound unused apart body (emittedSince_eq appended.symm ▸ late)

/-- The engines that follow by completed calls that submit no new order under an id. -/
def FollowsWithout (id : OrderId) (engine : MatchingEngine config) :
    MatchingEngine config → Prop :=
  Reached (· = engine) process fun _ command =>
    ∀ instrumentId order, command = .newOrder instrumentId order → order.id ≠ id

/-- An id that is live nowhere stays so until a new order is submitted under it. -/
theorem FollowsWithout.dead {later : MatchingEngine config} (sound : engine.Sound queues)
    (dead : ¬engine.Live id) (follows : FollowsWithout id engine later) :
    Gone id later.clearEvents := by
  refine Reached.invariant ?_ ?_ follows
  · rintro state rfl
    exact ⟨⟨queues, sound.congr rfl rfl⟩, dead, by simp⟩
  · rintro state command following gone other completed
    have gone' := (gone_carried other).returns gone completed
    exact ⟨gone'.sound.imp fun _ sound => sound.congr rfl rfl, gone'.dead, by simp⟩

/-- A cancel under an id where an order rests removes the order and reports what remained. -/
theorem Cancelled.removes (sound : engine.Sound queues)
    (cancelled : Cancelled engine queues id engine') (rests : engine.restingOrder id ≠ none) :
    engine'.restingOrder id = none ∧ ∃ order, engine.restingOrder id = some order ∧
      .orderCancelled id order.remaining ∈ engine'.bodies := by
  cases cancelled with
  | missing absent => exact absurd (restingOrder_none absent) rests
  | removed held found named removed =>
    have before := sound.rep.restingOrder_iff.mpr ⟨_, removed.found, named⟩
    exact ⟨(removed.restingOrder sound.rep).trans (if_pos named.symm), _, before, by simp⟩

end MatchingEngine

end MatchX
