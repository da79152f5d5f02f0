import MatchX.Engine.LiveIds
import MatchX.Engine.Modify

/-!
# Modifications that are rejected

A modification withdraws the resting order and reports it as modified before it submits the
order that replaces it, and only that submission checks the new quantity. So a modification that
reports a rejection has always lost the original order. It reports one when the new quantity is
zero, and when a stop that waits under the same id fires during the call and is turned away.
-/

namespace MatchX

open MatchX.Support

namespace MatchingEngine

variable {config : InstrumentConfig} {engine site after : MatchingEngine config} {queues : Queues}
  {order : NewOrder} {id : OrderId} {newPrice newQty : UInt64}

/-- A call that reports a rejection of the id of the order in a slot has left that order at its
place, with its price and its remaining quantity, has not reported it as modified, and has left
the book, with its depth indices and best prices, as it was. -/
def KeepsOriginal (engine after : MatchingEngine config) (index : ArenaIndex) (order : Order) :
    Prop :=
  (∃ reason, .orderRejected order.id reason ∈ after.bodies) →
    (∃ kept, after.arena.find index = some kept ∧ kept.id = order.id ∧
      kept.price = order.price ∧ kept.remaining = order.remaining) ∧
    (∃ queues, engine.Sound queues ∧ after.Sound queues) ∧
    (∀ newPrice newQty, .orderModified order.id newPrice newQty ∉ after.bodies) ∧
    after.book = engine.book

/-- No stop of the id that fires during a call is turned away. -/
def StopsPass (engine : MatchingEngine config) (command : Command) (id : OrderId) : Prop :=
  ∀ start before site order, engine.clearEvents.dispatch command = .ok start →
    Fires start before site order → order.id = id → site.turnsAway order = false

/-- Handling an order reports a rejection only of that order, and only if its checks refuse
it. -/
theorem Handled.rejects (sound : site.Sound queues) (returned : site.processNewOrder order = .ok after)
    {reason : RejectReason} (reported : .orderRejected id reason ∈ after.bodies) :
    .orderRejected id reason ∈ site.bodies ∨ (id = order.id ∧ site.turnsAway order = true) := by
  have handled := processNewOrder_cases sound returned
  cases away : site.turnsAway order with
  | true =>
    obtain ⟨found, rfl⟩ := rejected_of_turnsAway sound away returned
    rw [emitRejected_bodies, List.mem_append, List.mem_singleton] at reported
    obtain before | now := reported
    · exact .inl before
    · exact .inr ⟨(EventBody.orderRejected.inj now).1, rfl⟩
  | false =>
    have accepted := accepted_of_not_turnsAway sound away returned
    left
    cases handled with
    | rejected other => exact absurd rfl (not_rejected_of_accepted accepted)
    | parked _ _ _ _ bodies =>
      rw [bodies, accept_bodies] at reported
      simpa using reported
    | posted _ _ rested =>
      rw [rested.bodies_eq, accept_bodies] at reported
      simpa using reported
    | matched _ _ swept _ settled =>
      obtain ⟨⟨further, appended⟩, plain⟩ := swept_emitted
        (fun body => ∀ id reason, body ≠ .orderRejected id reason) (sound.accept order)
        (fun sweep flow seen step body member id reason same => by
          obtain ⟨queues', sound'⟩ := sound_of_visits (sound.accept order) seen
          have iteration := matchStep_cases sound' step
          subst same
          cases iteration <;> simp [emittedSince, flowEngine] at member) swept
      obtain ⟨tail, settledBodies, kinds⟩ := settled.bodies_eq
      rw [settledBodies, ← appended, accept_bodies, List.append_assoc, List.append_assoc,
        List.mem_append] at reported
      rw [emittedSince_eq appended.symm] at plain
      obtain before | now := reported
      · exact before
      · have later : .orderRejected id reason ∈ further ∨ .orderRejected id reason ∈ tail := by
          simpa using now
        obtain between | late := later
        · exact absurd rfl (plain _ between id reason)
        · rcases kinds with rfl | rfl | rfl <;> simp at late

/-- A drain in which no stop of an id is turned away rejects no order of that id. -/
theorem not_rejected_of_stopsPass {start : MatchingEngine config} (sound : start.Sound queues)
    (begins : ∀ reason, .orderRejected id reason ∉ start.bodies)
    (passes : ∀ before site stop, Fires start before site stop → stop.id = id →
      site.turnsAway stop = false)
    (drains : start.drainStopTriggers = .ok after) :
    ∀ reason, .orderRejected id reason ∉ after.bodies := by
  refine (@drain_returns config (fun state => (∃ queues, state.Sound queues) ∧
      ∀ reason, .orderRejected id reason ∉ state.bodies)
    (fun site stop => (∃ queues, site.Sound queues) ∧
      (∀ reason, .orderRejected id reason ∉ site.bodies) ∧
      (stop.id = id → site.turnsAway stop = false)) start ⟨⟨queues, sound⟩, begins⟩ ?_ ?_
    after drains).2
  · rintro before site stop fired ⟨⟨queues, sound⟩, none⟩
    refine ⟨⟨queues, sound.congr fired.kept.1 fired.kept.2⟩, fun reason reported => ?_,
      passes before site stop fired⟩
    rw [fired.bodies_eq, List.mem_append, List.mem_singleton] at reported
    obtain early | now := reported
    · exact none reason early
    · cases now
  · rintro before site stop after - ⟨⟨queues, sound⟩, none, pass⟩ returned
    refine ⟨(processNewOrder_cases sound returned).sound sound, fun reason reported => ?_⟩
    obtain early | ⟨same, away⟩ := Handled.rejects sound returned reported
    · exact none reason early
    · rw [pass same.symm] at away
      contradiction

/-- What a modification of a resting order does before it submits the replacement. -/
theorem processModify_reported {index : ArenaIndex} {order : Order} (sound : engine.Sound queues)
    (held : engine.book.lookup order.id = some index) (found : engine.arena.find index = some order)
    (returned : engine.processModify order.id newPrice newQty = .ok after) :
    ∃ (site : MatchingEngine config) (queues' : Queues), site.Sound queues' ∧
      site.book.lookup order.id = none ∧
      site.bodies = engine.bodies ++ [.orderModified order.id newPrice newQty,
        .bookUpdate order.side order.price (site.book.getLevelQty order.side order.price)] ∧
      site.processNewOrder (replacement order.id order.side newPrice newQty) = .ok after := by
  unfold processModify at returned
  simp only [held, bind, Except.bind] at returned
  split at returned
  · contradiction
  · rename_i result withdrawn
    cases withdraw_cases sound held withdrawn with
    | removed found' removed =>
      obtain rfl := Option.some.inj (found.symm.trans found')
      have fresh := lookup_none_of_removed sound removed
      refine ⟨_, _, ⟨removed.represents, removed.tracks sound.tracks⟩, fresh, ?_, returned⟩
      rw [emitLevel_bodies, emit_bodies, List.append_assoc]
      rfl

/-- The checks of the replacement of a withdrawn order refuse it exactly when it has no
quantity. -/
theorem turnsAway_replacement {side : Side} (sound : site.Sound queues)
    (fresh : site.book.lookup id = none) :
    site.turnsAway (replacement id side newPrice newQty) = decide (newQty = 0) := by
  have kind : (replacement id side newPrice newQty).Matched := by
    constructor <;> simp [replacement]
  rw [turnsAway_matched sound kind]
  by_cases nothing : newQty = 0
  · have refused : site.refusal (replacement id side newPrice newQty) =
        .ok (some .invalidQuantity) := by
      unfold refusal
      simp only [bind, Except.bind, pure, Except.pure]
      rw [if_pos (show (replacement id side newPrice newQty).qty = 0 from nothing)]
    rw [refused]
    exact (decide_eq_true nothing).symm
  · rw [refusal_gtc sound rfl (show (replacement id side newPrice newQty).qty ≠ 0 from nothing)
      fresh, if_neg (not_stoppedAtOnce rfl)]
    exact (decide_eq_false nothing).symm

/-- The stops that wait once a modification is dispatched waited before. -/
theorem pendingIds_dispatched {start : MatchingEngine config} (sound : engine.Sound queues)
    (dispatched : engine.dispatch (.modifyOrder id newPrice newQty) = .ok start) :
    (∃ queues', start.Sound queues') ∧ start.pendingIds = engine.pendingIds := by
  change engine.processModify id newPrice newQty = .ok start at dispatched
  cases held : engine.book.lookup id with
  | none =>
    simp only [processModify, held, Except.ok.injEq] at dispatched
    subst dispatched
    exact ⟨⟨queues, sound.congr rfl rfl⟩, rfl⟩
  | some index =>
    simp only [processModify, held, bind, Except.bind] at dispatched
    split at dispatched
    · contradiction
    · rename_i result withdrawn
      cases withdraw_cases sound held withdrawn with
      | removed found removed =>
        rename_i order book arena
        have without : (((engine.withBook book arena).emit
            (.orderModified id newPrice newQty)).emitLevel order.side order.price).Sound
            (queues.delete order.unlinked index) :=
          ⟨removed.represents, removed.tracks sound.tracks⟩
        have handled := processNewOrder_cases without dispatched
        obtain ⟨bids, asks⟩ := handled.stops_eq without (by simp [replacement])
        refine ⟨handled.sound without, ?_⟩
        rw [pendingIds, bids, asks]
        rfl

/-- Only stops that wait before a modification fire during it. -/
theorem fired_pending {start before site : MatchingEngine config} {stop : NewOrder}
    (sound : engine.Sound queues)
    (dispatched : engine.clearEvents.dispatch (.modifyOrder id newPrice newQty) = .ok start)
    (fired : Fires start before site stop) : stop.id ∈ engine.pendingIds := by
  have clear : engine.clearEvents.Sound queues := sound.congr rfl rfl
  obtain ⟨started, pending⟩ := pendingIds_dispatched clear dispatched
  refine (@drain_fires config
    (fun state => (∃ queues, state.Sound queues) ∧ state.pendingIds ⊆ engine.pendingIds)
    (fun site stop => (∃ queues, site.Sound queues) ∧ site.pendingIds ⊆ engine.pendingIds ∧
      stop.orderType ≠ .stopLimit ∧ stop.id ∈ engine.pendingIds) start ⟨started, ?_⟩ ?_ ?_
    before site stop fired).2.2.2.2
  · rw [pending]
    exact List.Subset.refl _
  · rintro before site stop fired ⟨⟨queues, sound⟩, among⟩
    obtain ⟨side, stopPx, entry, rfl, popped⟩ := fired.popped
    have ids := popped.pendingIds
    refine ⟨⟨queues, sound.congr popped.book popped.arena⟩, fun other member => ?_,
      stopEntry_order_kind entry, ?_⟩
    · exact among (ids.mem_iff.mpr (List.mem_cons_of_mem _ member))
    · exact among (ids.mem_iff.mpr List.mem_cons_self)
  · rintro before site stop after - ⟨⟨queues, sound⟩, among, kind, -⟩ returned
    have handled := processNewOrder_cases sound returned
    obtain ⟨bids, asks⟩ := handled.stops_eq sound kind
    refine ⟨handled.sound sound, ?_⟩
    rwa [pendingIds, bids, asks, ← pendingIds]

/-- A modification of a resting order that is rejected keeps the original order exactly when the
new quantity is not zero and no stop that waits under its id fires and is turned away, in which
case nothing is rejected. Without a stop under its id, only the quantity matters. -/
theorem modify_keeps_original_iff (config : InstrumentConfig) (engine : MatchingEngine config)
    (index : ArenaIndex) (order : Order) (newPrice newQty : UInt64)
    (after : MatchingEngine config) (reachable : Reachable engine)
    (held : engine.book.lookup order.id = some index)
    (found : engine.arena.get index = .ok order)
    (completed : engine.process (.modifyOrder order.id newPrice newQty) = .ok after) :
    (KeepsOriginal engine after index order ↔
      newQty ≠ 0 ∧ StopsPass engine (.modifyOrder order.id newPrice newQty) order.id) ∧
    (order.id ∉ engine.pendingIds → (KeepsOriginal engine after index order ↔ newQty ≠ 0)) := by
  obtain ⟨queues, sound⟩ := reachable.sound
  have clear : engine.clearEvents.Sound queues := sound.congr rfl rfl
  obtain ⟨start, dispatched, drains, -⟩ := process_drained completed
  obtain ⟨site, queues', sound', fresh, bodies, returned⟩ :=
    processModify_reported clear held (Arena.get_ok.mp found) dispatched
  have handled := processNewOrder_cases sound' returned
  obtain ⟨queues'', started⟩ := handled.sound sound'
  have first : Extends site start := handled.extends sound'
  have last : Extends start after := drain_extends started drains
  have modified : .orderModified order.id newPrice newQty ∈ after.bodies := by
    refine (first.trans last).subset ?_
    rw [bodies]
    simp
  -- The modification has been reported, so the original is kept only without a rejection.
  have never : KeepsOriginal engine after index order ↔
      ∀ reason, .orderRejected order.id reason ∉ after.bodies := by
    constructor
    · intro keeps reason reported
      exact (keeps ⟨reason, reported⟩).2.2.1 newPrice newQty modified
    · rintro none ⟨reason, reported⟩
      exact absurd reported (none reason)
  have exactly : KeepsOriginal engine after index order ↔
      newQty ≠ 0 ∧ StopsPass engine (.modifyOrder order.id newPrice newQty) order.id := by
    rw [never]
    constructor
    · intro none
      constructor
      · intro nothing
        have away : site.turnsAway (replacement order.id order.side newPrice newQty) = true := by
          rw [turnsAway_replacement sound' fresh, decide_eq_true nothing]
        obtain ⟨reason, rfl⟩ := rejected_of_turnsAway sound' away returned
        refine none reason (last.subset ?_)
        rw [emitRejected_bodies]
        exact List.mem_append_right _ (List.mem_singleton_self _)
      · intro start' before site' stop dispatched' fired same
        obtain rfl := Except.ok.inj (dispatched.symm.trans dispatched')
        by_contra away
        obtain ⟨stopped, handled', further⟩ := fired.handled started drains
        obtain ⟨queues'', siteSound⟩ :=
          (Submits.triggered dispatched' fired).sound sound
        obtain ⟨reason, rfl⟩ :=
          rejected_of_turnsAway siteSound (Bool.not_eq_false _ ▸ away) handled'
        refine none reason (further.subset ?_)
        rw [emitRejected_bodies, same]
        exact List.mem_append_right _ (List.mem_singleton_self _)
    · rintro ⟨proper, passes⟩
      have begins : ∀ reason, .orderRejected order.id reason ∉ start.bodies := by
        intro reason reported
        obtain before | ⟨-, away⟩ := Handled.rejects sound' returned reported
        · rw [bodies] at before
          simp [clearEvents, MatchingEngine.bodies] at before
        · rw [turnsAway_replacement sound' fresh] at away
          exact proper (of_decide_eq_true away)
      exact not_rejected_of_stopsPass started begins (passes start · · · dispatched) drains
  refine ⟨exactly, fun alone => exactly.trans ⟨And.left, fun proper => ⟨proper, ?_⟩⟩⟩
  intro start' before site' stop dispatched' fired same
  exact absurd (same ▸ fired_pending sound dispatched' fired) alone

/-- An ask is moved from 2 to 3 with four of its ten: nothing is rejected. -/
theorem modified_ask_keeps :
    ∃ (engine : MatchingEngine (smallConfig .cancelNewest)) (order : Order)
      (after : MatchingEngine (smallConfig .cancelNewest)),
      engine.process (.modifyOrder order.id 3 4) = .ok after ∧
        KeepsOriginal engine after 0 order := by
  obtain ⟨engine, reachable, shown⟩ := Reachable.exists_run
    (fun engine : MatchingEngine (smallConfig .cancelNewest) =>
      (engine.process (.modifyOrder 1 3 4)).toOption.any fun _ =>
        (engine.arena.get 0).toOption.any fun order =>
          engine.book.lookup 1 == some 0 && order.id == 1 && engine.pendingIds.isEmpty) 8
    [.submit (.gtc 1 .ask 2 10)] (by decide +kernel)
  obtain ⟨after, completed, facts⟩ := (Option.any_eq_true _ _).mp shown
  obtain ⟨order, found, facts⟩ := (Option.any_eq_true _ _).mp facts
  simp only [Bool.and_eq_true, beq_iff_eq, List.isEmpty_iff] at facts
  obtain ⟨⟨held, named⟩, none⟩ := facts
  have completed' : engine.process (.modifyOrder order.id 3 4) = .ok after := by
    rw [named]
    exact ok_of_toOption completed
  have alone : order.id ∉ engine.pendingIds := by
    rw [none]
    exact List.not_mem_nil
  exact ⟨engine, order, after, completed', ((modify_keeps_original_iff _ engine 0 order 3 4 after
    reachable (named.symm ▸ held) (ok_of_toOption found) completed').2 alone).mpr (by decide)⟩

/-- An ask of ten is modified to a quantity of zero: it is reported as modified, then its
replacement is rejected, and it is gone. -/
theorem modified_to_nothing_lost :
    ¬∀ (engine : MatchingEngine (smallConfig .cancelNewest)) index order newPrice newQty after,
      Reachable engine → engine.book.lookup order.id = some index →
      engine.arena.get index = .ok order →
      engine.process (.modifyOrder order.id newPrice newQty) = .ok after →
      KeepsOriginal engine after index order := by
  intro always
  obtain ⟨engine, reachable, shown⟩ := Reachable.exists_run
    (fun engine : MatchingEngine (smallConfig .cancelNewest) =>
      (engine.process (.modifyOrder 1 2 0)).toOption.any fun after =>
        (engine.arena.get 0).toOption.any fun order =>
          engine.book.lookup 1 == some 0 && order.id == 1 && (after.arena.find 0).isNone &&
            after.bodies.contains (.orderRejected 1 .invalidQuantity)) 8
    [.submit (.gtc 1 .ask 2 10)] (by decide +kernel)
  obtain ⟨after, completed, facts⟩ := (Option.any_eq_true _ _).mp shown
  obtain ⟨order, found, facts⟩ := (Option.any_eq_true _ _).mp facts
  simp only [Bool.and_eq_true, beq_iff_eq, Option.isNone_iff_eq_none, List.contains_iff_mem]
    at facts
  obtain ⟨⟨⟨held, named⟩, gone⟩, rejected⟩ := facts
  obtain ⟨⟨kept, still, -⟩, -⟩ := always engine 0 order 2 0 after reachable (named.symm ▸ held)
    (ok_of_toOption found) (named.symm ▸ ok_of_toOption completed)
    ⟨.invalidQuantity, named.symm ▸ rejected⟩
  rw [gone] at still
  contradiction

end MatchingEngine

end MatchX
