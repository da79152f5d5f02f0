import MatchX.Engine.Refinement
import MatchX.Engine.Rejection
import MatchX.Engine.Stops
import MatchX.Support.Moments

/-!
# The moments of a call

The engines between which a call goes: once the event buffer is cleared, once the command has
removed an order, once an order is accepted, after every iteration of its sweep, once its
remainder is settled, and whenever a stop leaves its queue. The ids of the orders of a book stand
in lines, one for every side and price, and every step from one of these engines to the next
lets ids leave or join at the end. A fill is one of the first id of its line.
-/

namespace MatchX

open MatchX.Support

/-! ## Lines of ids -/

/-- The ids of the orders of each side and price, first to last. -/
def FifoBook.ids (book : FifoBook) : Lines (Side × UInt64) OrderId :=
  fun place => (book place.1 place.2).map Order.id

namespace FifoBook

variable {book : FifoBook}

/-- An order whose id stands nowhere joins at the end of its line. -/
theorem ids_append {order : Order} (unused : ¬book.ids.Stands order.id) :
    Lines.Moves book.ids (book.append order).ids := by
  have parts : ∀ place, ∃ joined, (book.append order).ids place = book.ids place ++ joined ∧
      ∀ member ∈ joined, member = order.id := by
    intro place
    by_cases here : place.1 = order.side ∧ place.2 = order.price
    · refine ⟨[order.id], ?_, by simp⟩
      simp only [ids, append, if_pos here, List.map_append, List.map_cons, List.map_nil]
    · refine ⟨[], ?_, by simp⟩
      simp only [ids, append, if_neg here, List.append_nil]
  have fresh : ∀ member, (book.append order).ids.Stands member → ¬book.ids.Stands member →
      member = order.id := by
    rintro member ⟨place, stands⟩ absent
    obtain ⟨joined, same, only⟩ := parts place
    rw [same] at stands
    exact only member ((List.mem_append.mp stands).resolve_left fun old => absent ⟨place, old⟩)
  refine ⟨fun place => ?_, fun first second absent absent' => ?_⟩
  · obtain ⟨joined, same, only⟩ := parts place
    exact ⟨_, joined, same, List.Sublist.refl _, fun member joins => only member joins ▸ unused⟩
  · exact (fresh _ first absent).trans (fresh _ second absent').symm

/-- A deleted order leaves. -/
theorem ids_delete (id : OrderId) : Lines.Moves book.ids (book.delete id).ids :=
  Lines.Moves.of_sublist fun _ => List.filter_sublist.map Order.id

/-- Filling an order moves nobody. -/
theorem ids_fill (id : OrderId) (delta : UInt64) : (book.fill id delta).ids = book.ids := by
  funext place
  rw [ids, fill, List.map_map, ids]
  refine List.map_congr_left fun order _ => ?_
  rw [Function.comp_apply]
  split <;> rfl

/-- A step of the matching loop lets at most one id leave. -/
theorem Matches.moves {book' : FifoBook} (step : book.Matches book') :
    Lines.Moves book.ids book'.ids := by
  cases step with
  | none => exact Lines.Moves.refl _
  | deleted => exact ids_delete _
  | filled =>
    rw [ids_fill]
    exact Lines.Moves.refl _
  | @finished order =>
    have leaves := @ids_delete (book.fill order.id order.remaining) order.id
    rwa [ids_fill] at leaves

end FifoBook

namespace MatchingEngine

variable {config : InstrumentConfig} {engine engine' site after now next : MatchingEngine config}
  {queues : Queues} {order : NewOrder} {command : Command} {lines : Lines (Side × UInt64) OrderId}
  {member : OrderId}

/-- An engine is sound for queues whose ids are some lines. -/
def ShowsLines (engine : MatchingEngine config) (lines : Lines (Side × UInt64) OrderId) : Prop :=
  ∃ queues, engine.Sound queues ∧ lines = (fifo engine.arena queues).ids

/-- An order rests under an id. -/
def RestsUnder (engine : MatchingEngine config) (id : OrderId) : Prop := engine.book.lookup id ≠ none

/-- The id of a resting order stands in the line of its side and price. -/
theorem ShowsLines.mem (shows : ShowsLines engine lines) {index : ArenaIndex} {order : Order}
    (found : engine.arena.find index = some order) : order.id ∈ lines (order.side, order.price) := by
  obtain ⟨queues, sound, rfl⟩ := shows
  have rests : order.unlinked ∈ fifo engine.arena queues order.side order.price :=
    (mem_fifo sound.rep.toQueued).mpr ⟨index, Arena.resting_of_find found⟩
  exact List.mem_map.mpr ⟨_, rests, rfl⟩

/-- An id that stands in a line is that of an order of the side and price. -/
theorem ShowsLines.exists_order (shows : ShowsLines engine lines) {place : Side × UInt64}
    (stands : member ∈ lines place) : ∃ index order, engine.arena.find index = some order ∧
      order.id = member ∧ (order.side, order.price) = place := by
  obtain ⟨queues, sound, rfl⟩ := shows
  obtain ⟨resting, inside, rfl⟩ := List.mem_map.mp stands
  obtain ⟨index, queued, rests⟩ := List.mem_filterMap.mp inside
  obtain ⟨stored, rests', onSide, atPrice⟩ := sound.rep.stored queued
  obtain rfl := Option.some.inj (rests.symm.trans rests')
  obtain ⟨order, found, rfl⟩ := Arena.find_of_resting rests
  exact ⟨index, order, found, rfl, Prod.ext onSide atPrice⟩

/-- An order rests under an id that stands in a line, and under no other one. -/
theorem ShowsLines.rests_iff (shows : ShowsLines engine lines) :
    engine.RestsUnder member ↔ lines.Stands member := by
  constructor
  · intro rests
    obtain ⟨index, held⟩ := Option.ne_none_iff_exists'.mp rests
    obtain ⟨queues, sound, -⟩ := id shows
    obtain ⟨order, found, rfl⟩ := sound.held held
    exact ⟨_, shows.mem found⟩
  · rintro ⟨place, stands⟩
    obtain ⟨index, order, found, rfl, -⟩ := shows.exists_order stands
    obtain ⟨queues, sound, -⟩ := shows
    have held := (sound.rep.indexed order.id index).mpr
      ⟨order.unlinked, Arena.resting_of_find found, rfl⟩
    rw [RestsUnder, OrderBook.lookup, held]
    simp

/-- No id stands twice. -/
theorem ShowsLines.distinct (shows : ShowsLines engine lines) : lines.Distinct where
  nodup place := by
    obtain ⟨queues, sound, rfl⟩ := shows
    refine List.Pairwise.map _ (fun _ _ apart => apart) ?_
    refine List.Pairwise.filterMap _ ?_ (sound.rep.nodup place.1 place.2)
    intro i j apart first rests second rests' same
    exact apart (sound.rep.slot_unique rests rests' same)
  single := by
    intro place place' member here there
    obtain ⟨index, order, found, named, rfl⟩ := shows.exists_order here
    obtain ⟨index', order', found', named', rfl⟩ := shows.exists_order there
    obtain ⟨queues, sound, -⟩ := shows
    obtain rfl := sound.rep.slot_unique (Arena.resting_of_find found)
      (Arena.resting_of_find found') (named.trans named'.symm)
    rw [Option.some.inj (found.symm.trans found')]

/-! ## Steps -/

/-- The order that a fill reports as its maker is the first of its line. -/
structure FillsFirst (engine : MatchingEngine config) (lines : Lines (Side × UInt64) OrderId)
    (makerId : OrderId) (price qty : UInt64) (maker : Order) : Prop where
  /-- It rests. -/
  found : ∃ index, engine.arena.find index = some maker
  /-- It has the id. -/
  named : maker.id = makerId
  /-- It rests at the price. -/
  atPrice : maker.price = price
  /-- It is the first of its line. -/
  first : (lines (maker.side, maker.price)).head? = some makerId
  /-- It is filled by no more than its slice. -/
  bound : qty ≤ maker.matchableQty

/-- A step of a call from an engine to the next. -/
structure Step (now next : MatchingEngine config) : Prop where
  /-- Ids leave their lines or join at the ends. -/
  follows : LinesMove ShowsLines now next
  /-- The makers of the fills it reports are the first of their lines. -/
  fills : ∀ lines, ShowsLines now lines → ∀ makerId takerId price qty makerLeft takerLeft,
    .fill makerId takerId price qty makerLeft takerLeft ∈ emittedSince now next →
      ∃ maker, FillsFirst now lines makerId price qty maker
  /-- It reports behind what was reported, or empties the event buffer. -/
  reports : ∀ lines, ShowsLines now lines → Extends now next ∨ next.bodies = []

/-- The report is one of a fill. -/
def isFill : EventBody → Bool
  | .fill .. => true
  | _ => false

/-- What a step does that reports no fill. -/
structure Still (now next : MatchingEngine config) (queues : Queues) : Prop where
  /-- It reports something else. -/
  bodies : ∃ tail, next.bodies = now.bodies ++ tail ∧ tail.all (fun body => !isFill body) = true
  /-- Ids leave their lines or join at the ends. -/
  moves : ∃ queues', next.Sound queues' ∧
    Lines.Moves (fifo now.arena queues).ids (fifo next.arena queues').ids

/-- A step that reports no fill. -/
theorem Step.of_still (still : ∀ queues, now.Sound queues → Still now next queues) :
    Step now next where
  follows := by
    rintro lines ⟨queues, sound, rfl⟩
    obtain ⟨queues', sound', moves⟩ := (still queues sound).moves
    exact ⟨_, ⟨queues', sound', rfl⟩, moves⟩
  fills := by
    rintro lines ⟨queues, sound, rfl⟩ makerId takerId price qty makerLeft takerLeft emitted
    obtain ⟨tail, bodies, none⟩ := (still queues sound).bodies
    rw [emittedSince_eq bodies] at emitted
    exact absurd (List.all_eq_true.mp none _ emitted) (by simp [isFill])
  reports := by
    rintro lines ⟨queues, sound, rfl⟩
    obtain ⟨tail, bodies, -⟩ := (still queues sound).bodies
    exact .inl ⟨tail, bodies.symm⟩

/-- Where the book and the arena are kept nobody moves. -/
theorem moves_kept (sound : now.Sound queues) (book : next.book = now.book)
    (arena : next.arena = now.arena) : ∃ queues', next.Sound queues' ∧
      Lines.Moves (fifo now.arena queues).ids (fifo next.arena queues').ids :=
  ⟨queues, sound.congr book arena, by rw [arena]; exact Lines.Moves.refl _⟩

/-- A removed order leaves. -/
theorem moves_removed {removed : Order} {index : ArenaIndex} (sound : now.Sound queues)
    (removal : Removed now.book now.arena queues removed index next.book next.arena) :
    ∃ queues', next.Sound queues' ∧
      Lines.Moves (fifo now.arena queues).ids (fifo next.arena queues').ids := by
  refine ⟨_, ⟨removal.represents, removal.tracks sound.tracks⟩, ?_⟩
  rw [removal.fifo_eq sound.rep]
  exact FifoBook.ids_delete _

/-- An order that rests joins at the end of its line. -/
theorem Rested.moves {qty : UInt64} (sound : now.Sound queues)
    (rested : Rested now queues order qty next) : ∃ queues', next.Sound queues' ∧
      Lines.Moves (fifo now.arena queues).ids (fifo next.arena queues').ids := by
  cases rested with
  | refused => exact moves_kept sound rfl rfl
  | inserted _ inserted =>
    refine ⟨_, ⟨inserted.represents, inserted.tracks sound.tracks⟩, ?_⟩
    simp only [emit_arena, withBook_arena]
    rw [inserted.fifo_eq sound.rep.toQueued]
    have shown : ShowsLines now (fifo now.arena queues).ids := ⟨queues, sound, rfl⟩
    exact FifoBook.ids_append fun stands => shown.rests_iff.mpr stands inserted.unused

/-- Reporting an order as accepted is a step. -/
theorem step_accept (site : MatchingEngine config) (order : NewOrder) :
    Step site (site.accept order) :=
  Step.of_still fun _ sound => ⟨⟨_, accept_bodies, rfl⟩, moves_kept sound rfl rfl⟩

/-- Settling the remainder of an order is a step. -/
theorem step_settled {result : SweepResult config} (matched : order.Matched)
    (returned : settleRemainder result order = .ok after) : Step result.engine after := by
  refine Step.of_still fun queues sound => ?_
  have settled := settleRemainder_cases sound matched returned
  obtain ⟨tail, bodies, kinds⟩ := settled.bodies_eq
  refine ⟨⟨tail, bodies, ?_⟩, ?_⟩
  · rcases kinds with rfl | rfl | rfl <;> rfl
  · cases settled with
    | prevented | filled | dropped => exact moves_kept sound rfl rfl
    | rested _ _ _ rested => exact rested.moves sound

/-- Handling an order without matching it is a step. -/
theorem step_unmatched (unmatched : ¬(order.Matched ∧ site.refusal order = .ok none))
    (returned : site.processNewOrder order = .ok after) : Step site after := by
  refine Step.of_still fun queues sound => ?_
  cases processNewOrder_cases sound returned with
  | rejected reason =>
    exact ⟨⟨_, emitRejected_bodies site order.id reason, rfl⟩, moves_kept sound rfl rfl⟩
  | parked _ _ book arena bodies =>
    exact ⟨⟨_, bodies.trans accept_bodies, rfl⟩, moves_kept sound book arena⟩
  | posted _ _ rested =>
    obtain ⟨queues', sound', moves⟩ := rested.moves (sound.accept order)
    refine ⟨⟨[.orderAccepted order.id order.side order.price order.qty order.orderType,
      .bookUpdate order.side order.price order.qty], ?_, rfl⟩, queues', sound', moves⟩
    rw [rested.bodies_eq, accept_bodies, List.append_assoc, List.singleton_append]
  | matched kind checks => exact absurd ⟨kind, checks⟩ unmatched

/-- An iteration of the matching loop is a step. -/
theorem step_iteration {taker : Taker} {sweep : Sweep config}
    {flow : Flow (Sweep config) (SweepResult config)} (taken : matchStep taker sweep = .ok flow) :
    Step sweep.engine (flowEngine flow) where
  follows := by
    rintro lines ⟨queues, sound, rfl⟩
    obtain ⟨queues', sound', step⟩ := (matchStep_cases sound taken).matches sound
    exact ⟨_, ⟨queues', sound', rfl⟩, step.moves⟩
  fills := by
    rintro lines shows makerId takerId price qty makerLeft takerLeft emitted
    obtain ⟨queues, sound, rfl⟩ := id shows
    obtain ⟨index, maker, front, -, -, rfl, -, rfl⟩ := (matchStep_cases sound taken).filled emitted
    refine ⟨maker, ⟨index, front.found⟩, rfl, front.atPrice, ?_, Std.min_le_right⟩
    obtain ⟨rest, queue⟩ := List.head?_eq_some_iff.mp front.first
    rw [FifoBook.ids, fifo, front.onSide, front.atPrice, queue, List.filterMap_cons,
      Arena.resting_of_find front.found]
    rfl
  reports := by
    rintro lines ⟨queues, sound, rfl⟩
    exact .inl (matchStep_cases sound taken).extends

/-- A stop that leaves its queue is a step. -/
theorem step_popped {side : Side} {stopPx : UInt64} {entry : StopEntry}
    (popped : Popped now side stopPx entry next) : Step now next :=
  Step.of_still fun _ sound =>
    ⟨⟨_, popped.bodies, rfl⟩, moves_kept sound popped.book popped.arena⟩

/-- What is reported before the total of a level, and the total. -/
theorem emit_emitLevel_bodies (engine : MatchingEngine config) (body : EventBody) (side : Side)
    (price : UInt64) : ((engine.emit body).emitLevel side price).bodies = engine.bodies ++
      [body, .bookUpdate side price (engine.book.getLevelQty side price)] := by
  simp

/-- A cancel command is a step. -/
theorem step_cancel {id : OrderId} (returned : now.processCancel id = .ok next) : Step now next := by
  refine Step.of_still fun queues sound => ?_
  cases processCancel_cases sound returned with
  | missing => exact ⟨⟨_, emitRejected_bodies now id _, rfl⟩, moves_kept sound rfl rfl⟩
  | removed held found named removed =>
    exact ⟨⟨_, emit_emitLevel_bodies (now.withBook _ _) _ _ _, rfl⟩, moves_removed sound removed⟩

/-- Withdrawing an order is a step. -/
theorem step_withdraw {index : ArenaIndex} {id : OrderId} {newPrice newQty : UInt64}
    (held : now.book.lookup id = some index)
    (withdrawn : now.withdraw index id newPrice newQty = .ok (next, order)) : Step now next := by
  refine Step.of_still fun queues sound => ?_
  cases withdraw_cases sound held withdrawn with
  | removed found removed =>
    exact ⟨⟨_, emit_emitLevel_bodies (now.withBook _ _) _ _ _, rfl⟩, moves_removed sound removed⟩

/-- Refusing to modify an order is a step. -/
theorem step_missed (now : MatchingEngine config) (id : OrderId) :
    Step now (now.emitRejected id .orderNotFound) :=
  Step.of_still fun _ sound =>
    ⟨⟨_, emitRejected_bodies now id _, rfl⟩, moves_kept sound rfl rfl⟩

/-- Clearing the event buffer is a step. -/
theorem step_clear (now : MatchingEngine config) : Step now now.clearEvents where
  follows := by
    rintro lines ⟨queues, sound, rfl⟩
    exact ⟨_, ⟨queues, sound.congr rfl rfl, rfl⟩, Lines.Moves.refl _⟩
  fills _ _ makerId takerId price qty makerLeft takerLeft emitted := by
    simp [emittedSince, bodies, clearEvents] at emitted
  reports _ _ := .inr rfl

/-! ## Moments -/

/-- The engine after an iteration of a sweep. -/
def iterationMoment (taker : Taker) (sweep : Sweep config) : List (MatchingEngine config) :=
  match matchStep taker sweep with
  | .ok flow => [flowEngine flow]
  | .error _ => []

/-- The moments from which an order that is matched is swept: its acceptance and each iteration. -/
def sweepMoments (site : MatchingEngine config) (order : NewOrder) :
    List (MatchingEngine config) :=
  let accepted := site.accept order
  accepted :: (states (matchStep (takerOf order))
    (accepted.arena.len.toNat + order.qty.toNat + 1) ⟨accepted, order.qty⟩).flatMap
      (iterationMoment (takerOf order))

/-- The moments of `process_new_order`. -/
def handleMoments (site : MatchingEngine config) (order : NewOrder) :
    List (MatchingEngine config) :=
  (if order.Matched ∧ (site.refusal order).toOption = some none then site.sweepMoments order
    else []) ++ (site.processNewOrder order).toOption.toList

/-- The moments of an iteration of an inner loop of `drain_stop_triggers`. -/
def fireMoments (trigger : MatchingEngine config → Option (MatchingEngine config × NewOrder))
    (before : MatchingEngine config) : List (MatchingEngine config) :=
  match trigger before with
  | none => []
  | some (site, order) => site :: site.handleMoments order

/-- The moments of an inner loop of `drain_stop_triggers`. -/
def stopMoments (side : Side) (lastPrice : UInt64) (before : MatchingEngine config) :
    List (MatchingEngine config) :=
  (states (fireStop (trigger side lastPrice)) ((before.stops side).length + 1) before).flatMap
    (fireMoments (trigger side lastPrice))

/-- The moments of a pass of `drain_stop_triggers`. -/
def passMoments (pass : MatchingEngine config) : List (MatchingEngine config) :=
  match pass.lastTradePrice with
  | none => []
  | some lastPrice =>
    stopMoments .bid lastPrice pass ++
      match drainBuys lastPrice pass with
      | .ok bought => stopMoments .ask lastPrice bought
      | .error _ => []

/-- The moments of `drain_stop_triggers`. -/
def drainMoments (start : MatchingEngine config) : List (MatchingEngine config) :=
  (states drainPass (start.stopBids.length + start.stopAsks.length + 1) start).flatMap passMoments

/-- The moments of the command part of `process`. -/
def dispatchMoments (engine : MatchingEngine config) : Command → List (MatchingEngine config)
  | .newOrder _ order => engine.handleMoments order
  | .cancelOrder id => (engine.processCancel id).toOption.toList
  | .modifyOrder id newPrice newQty =>
    match engine.book.lookup id with
    | none => [engine.emitRejected id .orderNotFound]
    | some index =>
      match engine.withdraw index id newPrice newQty with
      | .ok (site, order) => site :: site.handleMoments order
      | .error _ => []

/-- The moments of `process`. -/
def callMoments (engine : MatchingEngine config) (command : Command) :
    List (MatchingEngine config) :=
  engine.clearEvents :: (engine.clearEvents.dispatchMoments command ++
    match engine.clearEvents.dispatch command with
    | .ok start => start.drainMoments
    | .error _ => [])

/-- The moments of the calls of a run, latest call first. -/
def runMoments : List (MatchingEngine config × Command) → List (MatchingEngine config)
  | [] => []
  | (engine, command) :: earlier => runMoments earlier ++ engine.callMoments command

/-- An iteration of a sweep goes through its moment. -/
theorem iteration_passes {taker : Taker} {sweep : Sweep config}
    {flow : Flow (Sweep config) (SweepResult config)} (taken : matchStep taker sweep = .ok flow) :
    Passes Step sweep.engine (iterationMoment taker sweep) (flowEngine flow) := by
  simp only [iterationMoment, taken]
  exact .one (step_iteration taken)

/-- Handling an order goes through its moments. -/
theorem handle_passes (returned : site.processNewOrder order = .ok after) :
    Passes Step site (site.handleMoments order) after := by
  unfold handleMoments
  rw [returned]
  by_cases checked : order.Matched ∧ site.refusal order = .ok none
  · obtain ⟨matched, checks⟩ := checked
    rw [processNewOrder_matched matched, checks] at returned
    have sweeps : ((site.accept order).matchAgainstBook (takerOf order) order.qty >>= fun result =>
      settleRemainder result order) = .ok after := returned
    obtain ⟨result, swept, settled⟩ := bind_ok sweeps
    rw [if_pos ⟨matched, by rw [checks]; rfl⟩]
    have iterations := loop_passes Sweep.engine SweepResult.engine
      (fun _ _ taken => iteration_passes taken) (fun _ _ taken => iteration_passes taken) swept
    exact (Passes.next (step_accept site order) iterations).append (.one (step_settled matched settled))
  · rw [if_neg]
    · exact .one (step_unmatched checked returned)
    · rintro ⟨matched, checks⟩
      exact checked ⟨matched, ok_of_toOption checks⟩

/-- A loop over the stops of a side goes through its moments. -/
theorem stops_pass {side : Side} {lastPrice : UInt64} {before : MatchingEngine config}
    (returned : loop .exhausted (fireStop (trigger side lastPrice))
      ((before.stops side).length + 1) before = .ok after) :
    Passes Step before (before.stopMoments side lastPrice) after := by
  refine loop_passes id id (fun state following taken => ?_)
    (fun state result taken => ?_) returned
  · obtain ⟨site, order, triggered, handled⟩ := fireStop_next taken
    obtain ⟨stopPx, entry, rfl, -, popped⟩ := trigger_some triggered
    simp only [fireMoments, triggered]
    exact .next (step_popped popped) (handle_passes handled)
  · rw [fireStop_done taken]
    simp only [fireMoments, fireStop_idle taken]
    exact .none state

/-- A pass of the drain goes through its moments. -/
theorem pass_passes {pass : MatchingEngine config}
    {flow : Flow (MatchingEngine config) (MatchingEngine config)}
    (taken : drainPass pass = .ok flow) :
    Passes Step pass pass.passMoments (passEngine flow) := by
  unfold passMoments
  cases traded : pass.lastTradePrice with
  | none =>
    unfold drainPass at taken
    rw [traded] at taken
    obtain rfl := Except.ok.inj taken
    exact .none pass
  | some lastPrice =>
    obtain ⟨bought, sold, buys, sells, leaves⟩ := drainPass_parts traded taken
    simp only [buys]
    have first := @stops_pass _ _ .bid lastPrice pass buys
    have second := @stops_pass _ _ .ask lastPrice bought sells
    split at leaves <;> (subst leaves; exact first.append second)

/-- The drain goes through its moments. -/
theorem drain_passes {start : MatchingEngine config}
    (returned : start.drainStopTriggers = .ok after) : Passes Step start start.drainMoments after :=
  loop_passes id id (fun _ _ taken => pass_passes taken) (fun _ _ taken => pass_passes taken) returned

/-- Carrying out a command goes through its moments. -/
theorem dispatch_passes (returned : engine.dispatch command = .ok after) :
    Passes Step engine (engine.dispatchMoments command) after := by
  cases command with
  | newOrder instrumentId order => exact handle_passes returned
  | cancelOrder id =>
    change engine.processCancel id = .ok after at returned
    rw [dispatchMoments, returned]
    exact .one (step_cancel returned)
  | modifyOrder id newPrice newQty =>
    change engine.processModify id newPrice newQty = .ok after at returned
    unfold processModify at returned
    cases held : engine.book.lookup id with
    | none =>
      rw [held] at returned
      obtain rfl := Except.ok.inj returned
      simp only [dispatchMoments, held]
      exact .one (step_missed engine id)
    | some index =>
      simp only [held] at returned
      obtain ⟨⟨site, order⟩, withdrawn, handled⟩ := bind_ok returned
      simp only [dispatchMoments, held, withdrawn]
      exact .next (step_withdraw held withdrawn) (handle_passes handled)

/-- A call that completes goes through its moments. -/
theorem call_passes (completed : engine.process command = .ok after) :
    Passes Step engine (engine.callMoments command) after := by
  obtain ⟨start, dispatched, drains, -⟩ := process_drained completed
  refine .next (step_clear engine) ?_
  simp only [dispatched]
  exact (dispatch_passes dispatched).append (drain_passes drains)

/-- A new engine. -/
def IsNew (engine : MatchingEngine config) : Prop := ∃ capacity, engine = new config capacity

/-- A run goes through the moments of its calls. -/
theorem run_passes {calls : List (MatchingEngine config × Command)}
    (trace : Trace IsNew process calls engine) :
    ∃ capacity, Passes Step (new config capacity) (runMoments calls) engine := by
  induction trace with
  | start isNew =>
    obtain ⟨capacity, rfl⟩ := isNew
    exact ⟨capacity, .none _⟩
  | step _ completed held =>
    obtain ⟨capacity, passes⟩ := held
    exact ⟨capacity, passes.append (call_passes completed)⟩

/-- What is in the event buffer at the last of some moments was there at the first, or a step from one
of them to the next has reported it. -/
theorem reported_at_step {first : MatchingEngine config} {later : List (MatchingEngine config)}
    (shown : ∀ state ∈ first :: later, ∃ lines, ShowsLines state lines)
    (chain : (first :: later).IsChain Step) :
    ∀ last, (first :: later).getLast? = some last → ∀ body ∈ last.bodies, body ∈ first.bodies ∨
      ∃ past now next rest, first :: later = past ++ now :: next :: rest ∧
        body ∈ emittedSince now next := by
  induction later generalizing first with
  | nil =>
    intro last ends body member
    obtain rfl := Option.some.inj ends
    exact .inl member
  | cons second rest ih =>
    intro last ends body member
    obtain ⟨step, chain'⟩ := List.isChain_cons_cons.mp chain
    rw [List.getLast?_cons_cons] at ends
    have shown' := fun state inside => shown state (List.mem_cons_of_mem first inside)
    rcases ih shown' chain' last ends body member with inSecond | ⟨past, now, next, rest', parts, told⟩
    · obtain ⟨lines, shows⟩ := shown first List.mem_cons_self
      rcases step.reports lines shows with ⟨tail, appended⟩ | empty
      · rw [← appended] at inSecond
        rcases List.mem_append.mp inSecond with old | new
        · exact .inl old
        · exact .inr ⟨[], first, second, rest, rfl, emittedSince_eq appended.symm ▸ new⟩
      · rw [empty] at inSecond
        cases inSecond
    · exact .inr ⟨first :: past, now, next, rest', by rw [parts]; rfl, told⟩

end MatchingEngine

end MatchX
