import MatchX.Engine.Stops

/-!
# Rejected commands

A rejection is the only report of the part of a call that handles the command, and that part
changes nothing but the buffer and the two clocks. Between calls the last trade price has
reached no pending stop, so the drain that follows finds none either.
-/

namespace MatchX

open MatchX.Support

/-- The id that a new order or a cancel command names. -/
def Command.subject : Command → Option OrderId
  | .newOrder _ order => some order.id
  | .cancelOrder id => some id
  | .modifyOrder .. => none

namespace MatchingEngine

variable {config : InstrumentConfig} {engine engine' : MatchingEngine config} {queues : Queues}
  {command : Command} {order : NewOrder} {id : OrderId} {reason : RejectReason}

/-! ## First reports -/

/-- What comes behind later reports begins with the same one. -/
theorem Extends.head? {between after : MatchingEngine config} {body : EventBody}
    (further : Extends between after) (first : between.bodies.head? = some body) :
    after.bodies.head? = some body := by
  obtain ⟨later, appended⟩ := further
  rw [← appended, List.head?_append, first]
  rfl

/-- Handling an order rejects it, with no other effect, or first reports it as accepted. -/
theorem Handled.first_report (sound : engine.Sound queues)
    (handled : Handled engine queues order engine') :
    (∃ reason, engine' = engine.emitRejected order.id reason) ∨
      Extends (engine.accept order) engine' := by
  cases handled with
  | rejected reason => exact .inl ⟨reason, rfl⟩
  | parked _ _ _ _ bodies => exact .inr ⟨[], (List.append_nil _).trans bodies.symm⟩
  | posted _ _ rested => exact .inr ⟨_, rested.bodies_eq.symm⟩
  | matched _ _ swept _ settled =>
    obtain ⟨further, -⟩ := swept_emitted (fun _ => True) (sound.accept order)
      (fun _ _ _ _ _ _ => trivial) swept
    obtain ⟨tail, bodies, -⟩ := settled.bodies_eq
    exact .inr (further.trans ⟨tail, bodies.symm⟩)

/-- Handling an order reports behind what was reported. -/
theorem Handled.extends (sound : engine.Sound queues)
    (handled : Handled engine queues order engine') : Extends engine engine' := by
  rcases handled.first_report sound with ⟨reason, rfl⟩ | further
  · exact ⟨_, (emitRejected_bodies _ _ _).symm⟩
  · exact List.IsPrefix.trans ⟨_, (accept_bodies).symm⟩ further

/-- An inner loop of the drain reports behind what was reported. -/
theorem fireStops_extends {pass after : MatchingEngine config} {side : Side} {lastPrice : UInt64}
    {fuel : Nat} (sound : pass.Sound queues)
    (returned : loop .exhausted (fireStop (trigger side lastPrice)) fuel pass = .ok after) :
    (∃ queues', after.Sound queues') ∧ Extends pass after := by
  refine @loop_rule _ _ _ .exhausted (fireStop (trigger side lastPrice))
    (fun state => (∃ queues, state.Sound queues) ∧ Extends pass state)
    (fun state => (∃ queues, state.Sound queues) ∧ Extends pass state) ?_ ?_ _ _ _
    ⟨⟨queues, sound⟩, List.prefix_rfl⟩ returned
  · rintro before following ⟨⟨queues, sound⟩, further⟩ step
    obtain ⟨site, stopPx, entry, popped, sound', handled, -⟩ := fireStop_popped sound step
    have reports : Extends before site := ⟨_, popped.bodies.symm⟩
    exact ⟨handled.sound sound', further.trans (reports.trans (handled.extends sound'))⟩
  · rintro before result held exit
    rwa [fireStop_done exit]

/-- The engine at the end of a pass of the drain. -/
def passEngine : Flow (MatchingEngine config) (MatchingEngine config) → MatchingEngine config
  | .next following => following
  | .done result => result

/-- A pass of the drain reports behind what was reported. -/
theorem drainPass_extends {pass : MatchingEngine config}
    {flow : Flow (MatchingEngine config) (MatchingEngine config)} (sound : pass.Sound queues)
    (step : drainPass pass = .ok flow) :
    (∃ queues', (passEngine flow).Sound queues') ∧ Extends pass (passEngine flow) := by
  cases traded : pass.lastTradePrice with
  | none =>
    unfold drainPass at step
    rw [traded] at step
    obtain rfl := Except.ok.inj step
    exact ⟨⟨queues, sound⟩, List.prefix_rfl⟩
  | some lastPrice =>
    obtain ⟨bought, sold, buys, sells, leaves⟩ := drainPass_parts traded step
    obtain ⟨⟨queues', sound'⟩, first⟩ := @fireStops_extends _ _ _ _ .bid _ _ sound buys
    obtain ⟨sound'', second⟩ := @fireStops_extends _ _ _ _ .ask _ _ sound' sells
    split at leaves <;> (subst leaves; exact ⟨sound'', first.trans second⟩)

/-- The passes of the drain report behind what was reported. -/
theorem drainPasses_extend {pass result : MatchingEngine config} {fuel : Nat}
    (sound : pass.Sound queues) (returned : loop .exhausted drainPass fuel pass = .ok result) :
    Extends pass result := by
  refine (@loop_rule _ _ _ .exhausted drainPass
    (fun state => (∃ queues, state.Sound queues) ∧ Extends pass state)
    (fun state => (∃ queues, state.Sound queues) ∧ Extends pass state) ?_ ?_ _ _ _
    ⟨⟨queues, sound⟩, List.prefix_rfl⟩ returned).2
  · rintro before following ⟨⟨queues, sound⟩, further⟩ step
    obtain ⟨sound', reports⟩ := drainPass_extends sound step
    exact ⟨sound', further.trans reports⟩
  · rintro before result ⟨⟨queues, sound⟩, further⟩ step
    obtain ⟨sound', reports⟩ := drainPass_extends sound step
    exact ⟨sound', further.trans reports⟩

/-- The drain reports behind what was reported. -/
theorem drain_extends {start result : MatchingEngine config} (sound : start.Sound queues)
    (returned : start.drainStopTriggers = .ok result) : Extends start result :=
  drainPasses_extend sound returned

/-- When an inner loop of the drain returns, it has handled the order of every stop it took, and
goes on to report behind that. -/
theorem fireStops_handled {pass before site after : MatchingEngine config} {side : Side}
    {lastPrice : UInt64} {fuel : Nat} (sound : pass.Sound queues)
    (returned : loop .exhausted (fireStop (trigger side lastPrice)) fuel pass = .ok after)
    (visits : Visits (fireStop (trigger side lastPrice)) pass before)
    (triggered : trigger side lastPrice before = some (site, order)) :
    ∃ handled, site.processNewOrder order = .ok handled ∧ Extends handled after := by
  obtain ⟨fuel', further⟩ := visits.returns returned
  have held : ∃ queues, before.Sound queues := by
    clear triggered further
    induction visits with
    | refl => exact ⟨queues, sound⟩
    | tail _ step held =>
      obtain ⟨queues, sound⟩ := held
      obtain ⟨site, stopPx, entry, -, sound', handled, -⟩ := fireStop_popped sound step
      exact handled.sound sound'
  obtain ⟨queues', sound'⟩ := held
  simp only [loop, fireStop, triggered, bind, Except.bind, pure, Except.pure] at further
  cases handles : site.processNewOrder order with
  | error fault => simp [handles] at further
  | ok handled =>
    simp only [handles] at further
    obtain ⟨stopPx, entry, -, -, popped⟩ := trigger_some triggered
    have sound'' := sound'.congr popped.book popped.arena
    obtain ⟨queues'', next⟩ := (processNewOrder_cases sound'' handles).sound sound''
    exact ⟨handled, rfl, (fireStops_extends next further).2⟩

/-- When the drain returns, it has handled the order of every stop it took, and has gone on to
report behind that. -/
theorem Fires.handled {start before site result : MatchingEngine config}
    (sound : start.Sound queues) (returned : start.drainStopTriggers = .ok result)
    (fired : Fires start before site order) :
    ∃ handled, site.processNewOrder order = .ok handled ∧ Extends handled result := by
  have ends : ∀ {pass : MatchingEngine config}, Visits drainPass start pass →
      (∃ queues, pass.Sound queues) ∧ ∃ flow, drainPass pass = .ok flow ∧
        Extends (passEngine flow) result := fun {pass} passes => by
    obtain ⟨fuel', further⟩ := passes.returns returned
    obtain ⟨queues', sound'⟩ : ∃ queues, pass.Sound queues := by
      clear further
      induction passes with
      | refl => exact ⟨queues, sound⟩
      | tail _ step held =>
        obtain ⟨queues, sound⟩ := held
        exact (drainPass_extends sound step).1
    refine ⟨⟨queues', sound'⟩, ?_⟩
    simp only [loop] at further
    cases step : drainPass pass with
    | error fault => simp [step] at further
    | ok flow =>
      simp only [step] at further
      obtain ⟨⟨queues'', sound''⟩, -⟩ := drainPass_extends sound' step
      cases flow with
      | next following => exact ⟨_, rfl, drainPasses_extend sound'' further⟩
      | done last =>
        obtain rfl := Except.ok.inj further
        exact ⟨_, rfl, List.prefix_rfl⟩
  cases fired with
  | buy passes traded visits triggered =>
    obtain ⟨⟨queues', sound'⟩, flow, step, reports⟩ := ends passes
    obtain ⟨bought, sold, buys, sells, leaves⟩ := drainPass_parts traded step
    obtain ⟨⟨queues'', sound''⟩, -⟩ := @fireStops_extends _ _ _ _ .bid _ _ sound' buys
    obtain ⟨-, second⟩ := @fireStops_extends _ _ _ _ .ask _ _ sound'' sells
    obtain ⟨handled, returned', first⟩ :=
      @fireStops_handled _ _ _ _ _ _ _ .bid _ _ sound' buys visits triggered
    refine ⟨handled, returned', first.trans (second.trans ?_)⟩
    split at leaves <;> (subst leaves; exact reports)
  | sell passes traded buys visits triggered =>
    obtain ⟨⟨queues', sound'⟩, flow, step, reports⟩ := ends passes
    obtain ⟨bought', sold, buys', sells, leaves⟩ := drainPass_parts traded step
    obtain rfl := Except.ok.inj (buys.symm.trans buys')
    obtain ⟨⟨queues'', sound''⟩, -⟩ := @fireStops_extends _ _ _ _ .bid _ _ sound' buys
    obtain ⟨handled, returned', first⟩ :=
      @fireStops_handled _ _ _ _ _ _ _ .ask _ _ sound'' sells visits triggered
    refine ⟨handled, returned', first.trans ?_⟩
    split at leaves <;> (subst leaves; exact reports)

/-- When a call ends, it has handled every order it submitted, and has gone on to report behind
that. -/
theorem Submits.handled {site after : MatchingEngine config} (sound : engine.Sound queues)
    (submits : Submits engine command site order)
    (ended : engine.processUnbounded command = .ok after) :
    ∃ handled, site.processNewOrder order = .ok handled ∧ Extends handled after := by
  obtain ⟨start, dispatched, drains⟩ := processUnbounded_drained ended
  obtain ⟨queues', sound'⟩ := (sound_kept engine command).dispatch
    ⟨queues, sound.congr rfl rfl⟩ dispatched
  cases submits with
  | direct asked =>
    subst asked
    exact ⟨start, dispatched, drain_extends sound' drains⟩
  | replaced asked held withdrawn =>
    subst asked
    change engine.clearEvents.processModify _ _ _ = .ok start at dispatched
    unfold processModify at dispatched
    simp only [held, withdrawn, bind, Except.bind] at dispatched
    exact ⟨start, dispatched, drain_extends sound' drains⟩
  | triggered dispatched' fired =>
    obtain rfl := Except.ok.inj (dispatched.symm.trans dispatched')
    exact fired.handled sound' drains

/-! ## A drain with nothing to do -/

/-- An inner loop of the drain stops at once when no stop is triggered. -/
theorem fireStops_idle {side : Side} {lastPrice : UInt64} {fuel : Nat}
    (idle : trigger side lastPrice engine = none) :
    loop .exhausted (fireStop (trigger side lastPrice)) (fuel + 1) engine = .ok engine := by
  simp only [loop, fireStop, idle]

/-- A trade price that has reached no pending stop triggers none. -/
theorem Quiet.trigger_none {lastPrice : UInt64} (quiet : engine.Quiet)
    (traded : engine.lastTradePrice = some lastPrice) (side : Side) :
    trigger side lastPrice engine = none := by
  cases fired : trigger side lastPrice engine with
  | none => rfl
  | some result =>
    obtain ⟨site, order⟩ := result
    obtain ⟨stopPx, entry, -, reached, popped⟩ := trigger_some fired
    have unreached := quiet lastPrice traded side (stopPx, entry)
      (by rw [popped.first]; exact List.mem_cons_self)
    rw [reached] at unreached
    contradiction

/-- The drain changes nothing when the last trade price has reached no pending stop. -/
theorem Quiet.drain (quiet : engine.Quiet) : engine.drainStopTriggers = .ok engine := by
  have once : drainPass engine = .ok (.done engine) := by
    unfold drainPass
    cases traded : engine.lastTradePrice with
    | none => rfl
    | some lastPrice =>
      have buys : drainBuys lastPrice engine = .ok engine :=
        fireStops_idle (quiet.trigger_none traded .bid)
      have sells : drainSells lastPrice engine = .ok engine :=
        fireStops_idle (quiet.trigger_none traded .ask)
      simp only [buys, sells, bind, Except.bind, traded, if_true]
      rfl
  simp only [drainStopTriggers, loop, once]

/-! ## Rejections -/

/-- What dispatching a new order or a cancel does: it rejects the id of the command, with no other
effect, or first reports something else. -/
theorem dispatch_first {start : MatchingEngine config} (sound : engine.Sound queues)
    (subject : command.subject = some id) (dispatched : engine.dispatch command = .ok start) :
    (∃ reason, start = engine.emitRejected id reason) ∨
      ∃ body, (∀ id reason, body ≠ .orderRejected id reason) ∧
        (engine.bodies ++ [body]) <+: start.bodies := by
  cases command with
  | newOrder instrumentId order =>
    obtain rfl := Option.some.inj subject
    rcases (processNewOrder_cases sound dispatched).first_report sound with rejected | further
    · exact .inl rejected
    · rw [Extends, accept_bodies] at further
      exact .inr ⟨_, fun _ _ => EventBody.noConfusion, further⟩
  | cancelOrder cancelled =>
    obtain rfl := Option.some.inj subject
    cases processCancel_cases sound dispatched with
    | missing => exact .inl ⟨_, rfl⟩
    | removed _ _ _ _ =>
      rename_i order book arena _ _ _ _
      refine .inr ⟨.orderCancelled cancelled order.remaining, by simp, ?_⟩
      rw [emitLevel_bodies, emit_bodies]
      exact List.prefix_append _ _
  | modifyOrder => contradiction

/-- A completed call for a new order or a cancel whose first event rejects the id of the command
emits only this event and changes nothing else but the two clocks. -/
theorem rejection_leaves_no_trace (config : InstrumentConfig) (engine : MatchingEngine config)
    (command : Command) (after : MatchingEngine config) (id : OrderId) (reason : RejectReason)
    (reachable : Reachable engine) (subject : command.subject = some id)
    (completed : engine.process command = .ok after)
    (first : after.bodies.head? = some (.orderRejected id reason)) :
    after = { engine with
      sequence := engine.sequence + 1
      timestampNs := engine.timestampNs + 1
      eventBuf := [⟨⟨engine.sequence + 1, engine.timestampNs + 1⟩, .orderRejected id reason⟩] } := by
  obtain ⟨⟨⟨queues, sound⟩, -⟩, quiet⟩ := reachable.stops
  have clear : engine.clearEvents.Sound queues := sound.congr rfl rfl
  obtain ⟨start, dispatched, drains, -⟩ := process_drained completed
  rcases dispatch_first clear subject dispatched with ⟨reason', rfl⟩ | ⟨body, other, begins⟩
  · have still : (engine.clearEvents.emitRejected id reason').Quiet := quiet
    rw [still.drain] at drains
    obtain rfl := Except.ok.inj drains
    have same : reason' = reason := by simpa using first
    rw [same]
    rfl
  · obtain ⟨⟨queues', sound'⟩, -⟩ := (orderly_kept engine command).dispatch
      ⟨⟨queues, clear⟩, reachable.stops.1.2⟩ dispatched
    have leads : after.bodies.head? = some body := by
      refine (drain_extends sound' drains).head? ?_
      obtain ⟨rest, appended⟩ := begins
      rw [← appended]
      rfl
    rw [leads] at first
    exact absurd (Option.some.inj first) (other id reason)

/-- After a trade at 2, with a buy stop pending at 3, cancelling an unknown id leaves no trace. -/
theorem rejection_with_pending_stop :
    ∃ engine after : MatchingEngine (smallConfig .cancelNewest),
      after = { engine with
        sequence := engine.sequence + 1
        timestampNs := engine.timestampNs + 1
        eventBuf := [⟨⟨engine.sequence + 1, engine.timestampNs + 1⟩, .orderRejected 7 .orderNotFound⟩] } ∧
      engine.lastTradePrice = some 2 ∧ engine.stopBids.map Prod.fst = [3] := by
  obtain ⟨engine, reachable, shown⟩ := Reachable.exists_run
    (fun engine : MatchingEngine (smallConfig .cancelNewest) =>
      engine.lastTradePrice == some 2 && engine.stopBids.map Prod.fst == [3] &&
        (engine.process (.cancelOrder 7)).toOption.any fun after =>
          after.bodies.head? == some (.orderRejected 7 .orderNotFound)) 8
    [.submit (.gtc 1 .ask 2 10), .submit (.gtc 2 .bid 2 4),
      .submit { NewOrder.gtc 3 .bid 3 5 with orderType := .stopLimit, stopPrice := some 3 }]
    (by decide +kernel)
  rw [Bool.and_eq_true, Bool.and_eq_true, beq_iff_eq, beq_iff_eq] at shown
  obtain ⟨after, completed, first⟩ := (Option.any_eq_true _ _).mp shown.2
  exact ⟨engine, after, rejection_leaves_no_trace _ engine (.cancelOrder 7) after 7 .orderNotFound
    reachable rfl (ok_of_toOption completed) (beq_iff_eq.mp first), shown.1⟩

end MatchingEngine

end MatchX
