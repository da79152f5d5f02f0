import MatchX.Engine.Sweeps

/-!
# Events

What the parts of a call append to the event buffer. The reports of a sweep are those of its
iterations; a fill that is reported is one of the maker in front.
-/

namespace MatchX

open MatchX.Support

namespace MatchingEngine

variable {config : InstrumentConfig} {engine : MatchingEngine config} {queues : Queues}
  {taker : Taker} {sweep start : Sweep config} {order : NewOrder}
  {flow : Flow (Sweep config) (SweepResult config)}

/-- What is reported from one engine of a call to a later one. -/
def emittedSince (before after : MatchingEngine config) : List EventBody :=
  after.bodies.drop before.bodies.length

/-- The reports that were appended are those since. -/
theorem emittedSince_eq {before after : MatchingEngine config} {bodies : List EventBody}
    (appended : after.bodies = before.bodies ++ bodies) : emittedSince before after = bodies := by
  rw [emittedSince, appended, List.drop_left]

/-- A fill that an iteration reports is one of the maker in front, for the smaller of the taker's
remainder and the maker's slice. -/
theorem Iteration.filled (iteration : Iteration taker queues sweep flow)
    {makerId takerId : OrderId} {price qty makerLeft takerLeft : UInt64}
    (emitted : .fill makerId takerId price qty makerLeft takerLeft ∈
      emittedSince sweep.engine (flowEngine flow)) :
    ∃ index maker, Front taker sweep.engine queues price index maker ∧ maker.remaining ≠ 0 ∧
      sameGroup taker maker = false ∧ makerId = maker.id ∧ takerId = taker.id ∧
      qty = min sweep.remaining maker.matchableQty := by
  cases iteration with
  | exhausted | unmatched | newest | stale | oldest | both | decrementAll | decrementPart =>
    simp [emittedSince, flowEngine] at emitted
  | fillPart left front apart part taken depth =>
    simp only [emittedSince, flowEngine, emitLevel_bodies, traded_bodies, emit_bodies,
      withBook_bodies, List.append_assoc, List.drop_left, List.mem_append, List.mem_singleton,
      EventBody.fill.injEq, reduceCtorEq, or_false] at emitted
    obtain ⟨rfl, rfl, rfl, rfl, -, -⟩ := emitted
    exact ⟨_, _, front, word_ne_zero_of_lt part, apart, rfl, rfl, rfl⟩
  | fillAll left front live apart whole taken depth removed =>
    simp only [emittedSince, flowEngine, emitLevel_bodies, traded_bodies, emit_bodies,
      withBook_bodies, List.append_assoc, List.drop_left, List.mem_append, List.mem_singleton,
      EventBody.fill.injEq, reduceCtorEq, or_false] at emitted
    obtain ⟨rfl, rfl, rfl, rfl, -, -⟩ := emitted
    exact ⟨_, _, front, live, apart, rfl, rfl, whole.symm⟩

/-- The next iteration meets a live maker of the taker's group. -/
def MeetsGroup (taker : Taker) (sweep : Sweep config) : Prop :=
  ∃ index maker, frontMaker taker sweep.engine = some (index, maker) ∧ maker.remaining ≠ 0 ∧
    sameGroup taker maker = true

/-- A cancellation that an iteration reports is that of the maker in front. -/
theorem Iteration.cancelled (iteration : Iteration taker queues sweep flow) {id : OrderId}
    {left : UInt64}
    (emitted : .orderCancelled id left ∈ emittedSince sweep.engine (flowEngine flow)) :
    ∃ price index maker, Front taker sweep.engine queues price index maker ∧ id = maker.id ∧
      left = maker.remaining := by
  cases iteration with
  | exhausted | unmatched | newest | stale | decrementAll | decrementPart | fillPart | fillAll =>
    simp [emittedSince, flowEngine] at emitted
  | oldest _ front | both _ front =>
    simp only [emittedSince, flowEngine, emitLevel_bodies, emit_bodies,
      withBook_bodies, List.append_assoc, List.drop_left, List.mem_append, List.mem_singleton,
      EventBody.orderCancelled.injEq, reduceCtorEq, or_false] at emitted
    exact ⟨_, _, _, front, emitted.1, emitted.2⟩

/-- A later engine of a call has reported what an earlier one had. -/
def Extends (before after : MatchingEngine config) : Prop := before.bodies <+: after.bodies

/-- The reports up to a later engine are those up to an engine in between and those since. -/
theorem emittedSince_trans {before between after : MatchingEngine config}
    (first : Extends before between) (second : Extends between after) :
    emittedSince before after = emittedSince before between ++ emittedSince between after := by
  obtain ⟨early, appended⟩ := first
  obtain ⟨late, appended'⟩ := second
  rw [emittedSince_eq appended.symm, emittedSince_eq appended'.symm]
  refine emittedSince_eq ?_
  rw [← appended', ← appended, List.append_assoc]

/-- An iteration reports behind what was reported. -/
theorem Iteration.extends (iteration : Iteration taker queues sweep flow) :
    Extends sweep.engine (flowEngine flow) := by
  cases iteration <;> simp [Extends, flowEngine]

/-- A sweep reports behind what was reported, and what holds of the reports of its iterations
holds of its reports. -/
theorem visits_emitted (property : EventBody → Prop) (sound : start.engine.Sound queues)
    (each : ∀ sweep flow, Visits (matchStep taker) start sweep →
      matchStep taker sweep = .ok flow →
      ∀ body ∈ emittedSince sweep.engine (flowEngine flow), property body)
    (visits : Visits (matchStep taker) start sweep) :
    Extends start.engine sweep.engine ∧
      ∀ body ∈ emittedSince start.engine sweep.engine, property body := by
  induction visits with
  | refl =>
    refine ⟨List.prefix_rfl, fun body member => ?_⟩
    simp [emittedSince] at member
  | tail seen step ih =>
    rename_i last following
    obtain ⟨queues', sound'⟩ := sound_of_visits sound seen
    have further : Extends last.engine following.engine := (matchStep_cases sound' step).extends
    refine ⟨ih.1.trans further, fun body member => ?_⟩
    rw [emittedSince_trans ih.1 further, List.mem_append] at member
    rcases member with early | late
    · exact ih.2 body early
    · exact each _ _ seen step body late

/-- What holds of the reports of the iterations of a sweep holds of the reports of the whole. -/
theorem swept_emitted (property : EventBody → Prop) {qty : UInt64} {result : SweepResult config}
    (sound : engine.Sound queues)
    (each : ∀ sweep flow, Visits (matchStep taker) ⟨engine, qty⟩ sweep →
      matchStep taker sweep = .ok flow →
      ∀ body ∈ emittedSince sweep.engine (flowEngine flow), property body)
    (swept : engine.matchAgainstBook taker qty = .ok result) :
    Extends engine result.engine ∧ ∀ body ∈ emittedSince engine result.engine, property body := by
  obtain ⟨last, visits, exit⟩ := loop_exit swept
  have begins : (⟨engine, qty⟩ : Sweep config).engine.Sound queues := sound
  obtain ⟨before, early⟩ := visits_emitted property begins each visits
  obtain ⟨queues', sound'⟩ := sound_of_visits begins visits
  have further : Extends last.engine result.engine := (matchStep_cases sound' exit).extends
  refine ⟨before.trans further, fun body member => ?_⟩
  rw [emittedSince_trans before further, List.mem_append] at member
  rcases member with early' | late
  · exact early body early'
  · exact each _ _ visits exit body late

/-! ## What a taker's quantity becomes -/

/-- What one report tells of a taker's fills. -/
def filledBy (id : OrderId) : EventBody → Nat
  | .fill _ takerId _ qty _ _ => if takerId = id then qty.toNat else 0
  | _ => 0

/-- The quantity that a taker fills according to some reports. -/
def takerFills (id : OrderId) (bodies : List EventBody) : Nat := (bodies.map (filledBy id)).sum

/-- The fills of reports in a row. -/
@[simp] theorem takerFills_append {id : OrderId} {early late : List EventBody} :
    takerFills id (early ++ late) = takerFills id early + takerFills id late := by
  simp [takerFills]

/-- The fills of no reports. -/
@[simp] theorem takerFills_nil {id : OrderId} : takerFills id [] = 0 := rfl

/-- The fills of one more report. -/
@[simp] theorem takerFills_cons {id : OrderId} {body : EventBody} {rest : List EventBody} :
    takerFills id (body :: rest) = filledBy id body + takerFills id rest := by
  simp [takerFills]

/-- The overlap by which an iteration that decrements a maker of the taker's group lowers the
taker, zero when the iteration does not. -/
def decrementAt (taker : Taker) (sweep : Sweep config) : UInt64 :=
  match frontMaker taker sweep.engine with
  | some (_, maker) =>
    if sweep.remaining ≠ 0 ∧ maker.remaining ≠ 0 ∧ sameGroup taker maker = true ∧
        config.stpMode = .decrementAndCancel then
      min sweep.remaining maker.remaining
    else 0
  | none => 0

/-- The taker's quantity at the end of an iteration. -/
def flowRemaining : Flow (Sweep config) (SweepResult config) → UInt64
  | .next following => following.remaining
  | .done result => result.remaining

/-- An iteration that meets a maker decrements nothing except in the mode that does. -/
theorem decrementAt_eq_zero {price : UInt64} {index : ArenaIndex} {maker : Order}
    (rep : Represents sweep.engine.book sweep.engine.arena queues)
    (front : Front taker sweep.engine queues price index maker)
    (other : ¬(sweep.remaining ≠ 0 ∧ maker.remaining ≠ 0 ∧ sameGroup taker maker = true ∧
      config.stpMode = .decrementAndCancel)) : decrementAt taker sweep = 0 := by
  simp only [decrementAt, front.frontMaker_eq rep, if_neg other]

/-- In that mode an iteration decrements a live maker of the taker's group. -/
theorem decrementAt_eq_min {price : UInt64} {index : ArenaIndex} {maker : Order}
    (rep : Represents sweep.engine.book sweep.engine.arena queues)
    (front : Front taker sweep.engine queues price index maker)
    (all : sweep.remaining ≠ 0 ∧ maker.remaining ≠ 0 ∧ sameGroup taker maker = true ∧
      config.stpMode = .decrementAndCancel) :
    decrementAt taker sweep = min sweep.remaining maker.remaining := by
  simp only [decrementAt, front.frontMaker_eq rep, if_pos all]

/-- A taker that is filled decrements nothing. -/
theorem decrementAt_filled (spent : sweep.remaining = 0) : decrementAt taker sweep = 0 := by
  unfold decrementAt
  split <;> simp [spent]

/-- An iteration that the sweep goes on after decrements nothing. -/
theorem Iteration.decrementAt_next {following : Sweep config} (sound : sweep.engine.Sound queues)
    (iteration : Iteration taker queues sweep (.next following)) : decrementAt taker sweep = 0 := by
  cases iteration with
  | stale _ front spent => exact decrementAt_eq_zero sound.rep front fun all => all.2.1 spent
  | oldest _ front _ _ mode =>
    exact decrementAt_eq_zero sound.rep front fun all => by simp [mode] at all
  | fillPart _ front apart =>
    exact decrementAt_eq_zero sound.rep front fun all => by simp [apart] at all
  | fillAll _ front _ apart =>
    exact decrementAt_eq_zero sound.rep front fun all => by simp [apart] at all

/-- What an iteration takes from the taker is what it reports as filled and what it decrements. -/
theorem Iteration.balance (sound : sweep.engine.Sound queues)
    (iteration : Iteration taker queues sweep flow) :
    takerFills taker.id (emittedSince sweep.engine (flowEngine flow)) +
      (decrementAt taker sweep).toNat + (flowRemaining flow).toNat = sweep.remaining.toNat := by
  have part : ∀ {small : UInt64}, small ≤ sweep.remaining →
      small.toNat + (sweep.remaining - small).toNat = sweep.remaining.toNat := fun ordered => by
    have := UInt64.le_iff_toNat_le.mp ordered
    rw [UInt64.toNat_sub_of_le _ _ ordered]
    omega
  cases iteration with
  | exhausted spent =>
    have idle : decrementAt taker sweep = 0 := decrementAt_filled spent
    simp [flowEngine, flowRemaining, emittedSince, idle]
  | unmatched _ refused =>
    simp [flowEngine, flowRemaining, emittedSince, decrementAt, frontMaker_eq_none refused]
  | stale _ front spent removed =>
    have idle := decrementAt_eq_zero sound.rep front fun all => all.2.1 spent
    simp [flowEngine, flowRemaining, emittedSince, idle]
  | newest _ front _ _ mode =>
    have idle := decrementAt_eq_zero sound.rep front fun all => by simp [mode] at all
    simp [flowEngine, flowRemaining, emittedSince, idle]
  | oldest _ front _ _ mode removed =>
    have idle := decrementAt_eq_zero sound.rep front fun all => by simp [mode] at all
    simp [flowEngine, flowRemaining, emittedSince, filledBy, idle]
  | both _ front _ _ mode removed =>
    have idle := decrementAt_eq_zero sound.rep front fun all => by simp [mode] at all
    simp [flowEngine, flowRemaining, emittedSince, filledBy, idle]
  | decrementAll left front live group mode whole removed =>
    have overlap := decrementAt_eq_min sound.rep front ⟨left, live, group, mode⟩
    have least : min sweep.remaining _ = _ := min_of_le whole
    rw [least] at overlap
    simpa [flowEngine, flowRemaining, emittedSince, filledBy, overlap] using part whole
  | decrementPart left front group mode smaller taken depth =>
    have overlap := decrementAt_eq_min sound.rep front ⟨left, word_ne_zero_of_lt smaller, group, mode⟩
    rw [Std.min_eq_if, if_pos (UInt64.le_of_lt smaller)] at overlap
    simp [flowEngine, flowRemaining, emittedSince, filledBy, overlap]
  | fillPart left front apart smaller taken depth =>
    have idle := decrementAt_eq_zero sound.rep front fun all => by simp [apart] at all
    simpa [flowEngine, flowRemaining, emittedSince, filledBy, idle] using part Std.min_le_left
  | fillAll left front live apart whole taken depth removed =>
    have bound : _ ≤ sweep.remaining := whole ▸ Std.min_le_left
    have idle := decrementAt_eq_zero sound.rep front fun all => by simp [apart] at all
    simpa [flowEngine, flowRemaining, emittedSince, filledBy, idle] using part bound

/-- What a sweep has taken from the taker is what it has reported as filled. -/
theorem visits_balance (sound : start.engine.Sound queues)
    (visits : Visits (matchStep taker) start sweep) :
    Extends start.engine sweep.engine ∧
    takerFills taker.id (emittedSince start.engine sweep.engine) + sweep.remaining.toNat =
      start.remaining.toNat := by
  induction visits with
  | refl => exact ⟨List.prefix_rfl, by simp [emittedSince]⟩
  | tail seen step ih =>
    rename_i last following
    obtain ⟨queues', sound'⟩ := sound_of_visits sound seen
    have iteration := matchStep_cases sound' step
    have further : Extends last.engine following.engine := iteration.extends
    have balance := iteration.balance sound'
    rw [iteration.decrementAt_next sound'] at balance
    refine ⟨ih.1.trans further, ?_⟩
    rw [emittedSince_trans ih.1 further, takerFills_append]
    simp only [flowEngine, flowRemaining, UInt64.toNat_zero] at balance
    omega

/-- What a whole sweep takes from the taker is what it reports as filled and what its last
iteration decrements. -/
theorem swept_balance {qty : UInt64} {result : SweepResult config} {last : Sweep config}
    (sound : engine.Sound queues) (visits : Visits (matchStep taker) ⟨engine, qty⟩ last)
    (exit : matchStep taker last = .ok (.done result)) :
    takerFills taker.id (emittedSince engine result.engine) + (decrementAt taker last).toNat +
      result.remaining.toNat = qty.toNat := by
  have begins : (⟨engine, qty⟩ : Sweep config).engine.Sound queues := sound
  obtain ⟨before, early⟩ : Extends engine last.engine ∧
      takerFills taker.id (emittedSince engine last.engine) + last.remaining.toNat = qty.toNat :=
    visits_balance begins visits
  obtain ⟨queues', sound'⟩ := sound_of_visits begins visits
  have iteration := matchStep_cases sound' exit
  have further : Extends last.engine result.engine := iteration.extends
  have balance := iteration.balance sound'
  rw [emittedSince_trans before further, takerFills_append]
  simp only [flowEngine, flowRemaining] at balance
  omega

/-! ## Handling an order -/

section Handle

variable {engine' : MatchingEngine config} {result : SweepResult config} {qty : UInt64}

/-- Resting an order reports the level, whether or not the book takes the order. -/
theorem Rested.bodies_eq (rested : Rested engine queues order qty engine') :
    engine'.bodies = engine.bodies ++ [.bookUpdate order.side order.price qty] := by
  cases rested with
  | refused => simp
  | inserted => simp

/-- What settling the remainder of an order reports. -/
theorem Settled.bodies_eq (settled : Settled result queues order engine') :
    ∃ tail, engine'.bodies = result.engine.bodies ++ tail ∧
      (tail = [] ∨ tail = [.orderCancelled order.id result.remaining] ∨
        tail = [.bookUpdate order.side order.price result.remaining]) := by
  cases settled with
  | prevented => exact ⟨_, emit_bodies _ _, .inr (.inl rfl)⟩
  | filled => exact ⟨[], by simp, .inl rfl⟩
  | rested _ _ _ rested => exact ⟨_, rested.bodies_eq, .inr (.inr rfl)⟩
  | dropped => exact ⟨_, emit_bodies _ _, .inr (.inl rfl)⟩

/-- A fill that is reported while an order is handled is one of an iteration of its sweep. -/
theorem Handled.filled (sound : engine.Sound queues)
    (handled : Handled engine queues order engine')
    {makerId takerId : OrderId} {price qty makerLeft takerLeft : UInt64}
    (emitted : .fill makerId takerId price qty makerLeft takerLeft ∈ emittedSince engine engine') :
    order.Matched ∧ engine.refusal order = .ok none ∧ ∃ sweep flow,
      Visits (matchStep (takerOf order)) ⟨engine.accept order, order.qty⟩ sweep ∧
      matchStep (takerOf order) sweep = .ok flow ∧
      .fill makerId takerId price qty makerLeft takerLeft ∈
        emittedSince sweep.engine (flowEngine flow) := by
  cases handled with
  | rejected reason =>
    rw [emittedSince_eq (emitRejected_bodies engine order.id reason)] at emitted
    simp at emitted
  | parked _ _ _ _ bodies =>
    rw [accept_bodies] at bodies
    rw [emittedSince_eq bodies] at emitted
    simp at emitted
  | posted _ _ rested =>
    have bodies := rested.bodies_eq
    rw [accept_bodies, List.append_assoc] at bodies
    rw [emittedSince_eq bodies] at emitted
    simp at emitted
  | matched kind checks swept _ settled =>
    refine ⟨kind, checks, ?_⟩
    obtain ⟨⟨reports, appended⟩, each⟩ := swept_emitted
      (fun body => body = .fill makerId takerId price qty makerLeft takerLeft →
        ∃ sweep flow,
          Visits (matchStep (takerOf order)) ⟨engine.accept order, order.qty⟩ sweep ∧
          matchStep (takerOf order) sweep = .ok flow ∧
          .fill makerId takerId price qty makerLeft takerLeft ∈
            emittedSince sweep.engine (flowEngine flow))
      (sound.accept order)
      (fun sweep flow visits step body member same => ⟨sweep, flow, visits, step, same ▸ member⟩)
      swept
    obtain ⟨tail, bodies, kinds⟩ := settled.bodies_eq
    rw [emittedSince_eq appended.symm] at each
    rw [← appended, accept_bodies, List.append_assoc, List.append_assoc] at bodies
    rw [emittedSince_eq bodies] at emitted
    simp only [List.mem_append, List.mem_singleton, reduceCtorEq, false_or] at emitted
    rcases emitted with inSweep | inTail
    · exact each _ inSweep rfl
    · rcases kinds with rfl | rfl | rfl <;> simp at inTail

/-- An order that rests once another is handled rested before, at most filled further, or is the
other one. -/
theorem Handled.origin (sound : engine.Sound queues)
    (handled : Handled engine queues order engine') {i : ArenaIndex} {after : Order}
    (rests : engine'.arena.resting i = some after) :
    (∃ before delta, engine.arena.resting i = some before ∧ delta ≤ before.remaining ∧
      after = before.fill delta) ∨
    ∃ qty, after = order.resting qty ∧ engine.book.lookup order.id = none := by
  have kept : ∀ {stored}, engine.arena.resting i = some stored →
      ∃ before delta, engine.arena.resting i = some before ∧ delta ≤ before.remaining ∧
        stored = before.fill delta := fun {stored} old => Arena.Shrinks.refl _ i stored old
  cases handled with
  | rejected => exact .inl (kept rests)
  | parked _ _ _ arena =>
    rw [arena] at rests
    exact .inl (kept rests)
  | posted _ _ rested =>
    cases rested with
    | refused => exact .inl (kept rests)
    | inserted _ inserted =>
      simp only [emit_arena, withBook_arena, inserted.resting] at rests
      split at rests
      · exact .inr ⟨_, (Option.some.inj rests).symm, inserted.unused⟩
      · exact .inl (kept rests)
  | matched _ checks swept sound' settled =>
    have shrinks := matchAgainstBook_shrinks (sound.accept order) swept
    cases settled with
    | prevented | filled | dropped => exact .inl (shrinks i after rests)
    | rested _ _ _ rested =>
      cases rested with
      | refused => exact .inl (shrinks i after rests)
      | inserted _ inserted =>
        simp only [emit_arena, withBook_arena, inserted.resting] at rests
        split at rests
        · exact .inr ⟨_, (Option.some.inj rests).symm, (refusal_none checks).2.1⟩
        · exact .inl (shrinks i after rests)

/-- Resting an order leaves the stops as they are. -/
theorem Rested.stops_eq (rested : Rested engine queues order qty engine') :
    engine'.stopBids = engine.stopBids ∧ engine'.stopAsks = engine.stopAsks := by
  cases rested with
  | refused => exact ⟨rfl, rfl⟩
  | inserted => exact ⟨rfl, rfl⟩

/-- Only a stop order changes the stops. -/
theorem Handled.stops_eq (sound : engine.Sound queues) (other : order.orderType ≠ .stopLimit)
    (handled : Handled engine queues order engine') :
    engine'.stopBids = engine.stopBids ∧ engine'.stopAsks = engine.stopAsks := by
  cases handled with
  | rejected => exact ⟨rfl, rfl⟩
  | parked kind => exact absurd kind other
  | posted _ _ rested => exact rested.stops_eq
  | matched _ _ swept _ settled =>
    obtain ⟨-, -, -, -, -, -, still⟩ := sweep_keeps
      (fun state => state.stopBids = engine.stopBids ∧ state.stopAsks = engine.stopAsks)
      (fun sweep queues' flow _ _ before _ iteration => by
        cases iteration <;> exact before)
      rfl (sound.accept order) ⟨rfl, rfl⟩ swept
    cases settled with
    | prevented | filled | dropped => exact still
    | rested _ _ _ rested => exact ⟨rested.stops_eq.1.trans still.1, rested.stops_eq.2.trans still.2⟩

end Handle

end MatchingEngine

end MatchX
