import MatchX.Engine.Events

/-!
# What is reported of resting orders

An order that rests before a call and rests no more after it, or of which less remains, is
reported: by a fill of the maker, a cancellation or a modification. Two removals and one
reduction of a sweep report nothing of the maker: those of a maker with nothing remaining, and
those that decrement a maker of the taker's group.
-/

namespace MatchX

open MatchX.Support

variable {ticks : UInt32} {book book' : OrderBook ticks} {arena arena' : Arena}
  {queues queues' : Queues} {order : Order} {index : ArenaIndex} {id : OrderId} {delta : UInt64}

/-! ## The order of an id -/

/-- The order that rests under an id. -/
def restingOrder (book : OrderBook ticks) (arena : Arena) (id : OrderId) : Option Order :=
  (book.lookup id).bind arena.resting

/-- The order of an id is the one that rests under it in some slot. -/
theorem Represents.restingOrder_iff (rep : Represents book arena queues) :
    restingOrder book arena id = some order ↔
      ∃ i, arena.resting i = some order ∧ order.id = id := by
  unfold restingOrder
  rw [Option.bind_eq_some_iff]
  constructor
  · rintro ⟨i, held, rests⟩
    obtain ⟨stored, rests', named⟩ := (rep.indexed id i).mp held
    obtain rfl := Option.some.inj (rests'.symm.trans rests)
    exact ⟨i, rests, named⟩
  · rintro ⟨i, rests, named⟩
    exact ⟨i, (rep.indexed id i).mpr ⟨order, rests, named⟩, rests⟩

/-- When the slot of an id is written and no other, the order of no other id changes. -/
theorem Represents.restingOrder_written {own : OrderId} {written : Option Order}
    (rep : Represents book arena queues) (rep' : Represents book' arena' queues')
    (resting : ∀ j, arena'.resting j = if j = index then written else arena.resting j)
    (named : ∀ stored, written = some stored → stored.id = own)
    (slot : ∀ j stored, arena.resting j = some stored → (stored.id = own ↔ j = index)) :
    restingOrder book' arena' id = if id = own then written else restingOrder book arena id := by
  ext stored
  rw [rep'.restingOrder_iff]
  by_cases same : id = own
  · rw [if_pos same]
    constructor
    · rintro ⟨i, rests, rfl⟩
      rw [resting] at rests
      split at rests
      · exact rests
      · rename_i other
        exact absurd ((slot i stored rests).mp same) other
    · intro present
      exact ⟨index, by rw [resting, if_pos rfl, present], (named stored present).trans same.symm⟩
  · rw [if_neg same, rep.restingOrder_iff]
    constructor
    · rintro ⟨i, rests, rfl⟩
      rw [resting] at rests
      split at rests
      · exact absurd (named stored rests) same
      · exact ⟨i, rests, rfl⟩
    · rintro ⟨i, rests, rfl⟩
      refine ⟨i, ?_, rfl⟩
      rw [resting, if_neg fun here => same ((slot i stored rests).mpr here)]
      exact rests

/-- The slot of a resting order is the only one that rests its id. -/
theorem Represents.slot_iff (rep : Represents book arena queues)
    (found : arena.resting index = some order) {j : ArenaIndex} {stored : Order}
    (rests : arena.resting j = some stored) : stored.id = order.id ↔ j = index := by
  refine ⟨rep.slot_unique rests found, ?_⟩
  rintro rfl
  rw [Option.some.inj (rests.symm.trans found)]

/-- A removal takes the order of its id and of no other. -/
theorem Removed.restingOrder (rep : Represents book arena queues)
    (removed : Removed book arena queues order index book' arena') :
    MatchX.restingOrder book' arena' id =
      if id = order.id then none else MatchX.restingOrder book arena id :=
  rep.restingOrder_written removed.represents removed.resting (fun _ none => by contradiction)
    fun _ _ => rep.slot_iff removed.found

/-- Taking a quantity fills the order of its id and of no other. -/
theorem Taken.restingOrder (rep : Represents book arena queues)
    (taken : Taken book arena queues order index delta book' arena') :
    MatchX.restingOrder book' arena' id =
      if id = order.id then some (order.fill delta) else MatchX.restingOrder book arena id := by
  refine rep.restingOrder_written taken.represents taken.resting ?_ fun _ _ =>
    rep.slot_iff taken.found
  rintro stored filled
  obtain rfl := Option.some.inj filled
  rfl

/-- An insertion rests an order under an id that had none. -/
theorem Inserted.restingOrder (rep : Represents book arena queues)
    (inserted : Inserted book arena queues order index book' arena') :
    MatchX.restingOrder book' arena' id =
      if id = order.id then some order else MatchX.restingOrder book arena id := by
  refine rep.restingOrder_written inserted.represents inserted.resting ?_ fun j stored rests => ?_
  · rintro stored same
    rw [Option.some.inj same]
  · refine ⟨fun same => absurd same (rep.lookup_none inserted.unused rests), ?_⟩
    rintro rfl
    rw [inserted.fresh] at rests
    contradiction

namespace MatchingEngine

variable {config : InstrumentConfig} {engine engine' : MatchingEngine config} {queues : Queues}
  {taker : Taker} {sweep : Sweep config} {flow : Flow (Sweep config) (SweepResult config)}
  {command : Command}

/-- The order that rests under an id. -/
def restingOrder (engine : MatchingEngine config) (id : OrderId) : Option Order :=
  MatchX.restingOrder engine.book engine.arena id

/-- An event tells that the order of an id has left. -/
def tellsLeft (id : OrderId) : EventBody → Bool
  | .fill makerId _ _ _ makerRemaining _ => makerId == id && makerRemaining == 0
  | .orderCancelled cancelled _ => cancelled == id
  | .orderModified modified _ _ => modified == id
  | _ => false

/-- An event tells that this much remains of the order of an id, or that it was replaced. -/
def tellsRemaining (id : OrderId) (remaining : UInt64) : EventBody → Bool
  | .fill makerId _ _ _ makerRemaining _ => makerId == id && makerRemaining == remaining
  | .orderModified modified _ _ => modified == id
  | _ => false

/-- The events of a call tell of every order that rested before it and has left, and of every one
of which less remains. -/
def Reported (before after : MatchingEngine config) : Prop :=
  ∀ id order, before.restingOrder id = some order →
    match after.restingOrder id with
    | none => after.bodies.any (tellsLeft id) = true
    | some left => left.remaining < order.remaining →
      after.bodies.any (tellsRemaining id left.remaining) = true

/-! ## Along a call -/

/-- The events of the call so far tell what became of an order that rested before it: it was
replaced, or it has left and that is told, or as much remains of it as did, or what remains is
told. -/
def ToldOf (id : OrderId) (order : Order) (state : MatchingEngine config) : Prop :=
  (∃ price qty, .orderModified id price qty ∈ state.bodies) ∨
  match state.restingOrder id with
  | none => state.bodies.any (tellsLeft id) = true
  | some left => left.remaining = order.remaining ∨
    state.bodies.any (tellsRemaining id left.remaining) = true

/-- The events of the call so far tell what became of every order that rested before it. -/
def Told (before state : MatchingEngine config) : Prop :=
  ∀ id order, before.restingOrder id = some order → ToldOf id order state

/-- What was told stays told as long as the order is kept. -/
theorem ToldOf.quiet {state state' : MatchingEngine config} (told : ToldOf id order state)
    (further : Extends state state')
    (kept : state'.restingOrder id = state.restingOrder id) : ToldOf id order state' := by
  have still : ∀ {test : EventBody → Bool}, state.bodies.any test = true →
      state'.bodies.any test = true := fun passes => by
    obtain ⟨body, member, passes⟩ := List.any_eq_true.mp passes
    exact List.any_eq_true.mpr ⟨body, further.subset member, passes⟩
  rcases told with ⟨price, qty, member⟩ | told
  · exact .inl ⟨price, qty, further.subset member⟩
  · refine .inr ?_
    rw [kept]
    split at told
    · exact still told
    · exact told.imp_right still

/-- A step that changes no resting order keeps everything told. -/
theorem Told.quiet {before state state' : MatchingEngine config} (told : Told before state)
    (further : Extends state state')
    (kept : ∀ id, state'.restingOrder id = state.restingOrder id) : Told before state' :=
  fun id order rests => (told id order rests).quiet further (kept id)

/-- A step that changes the order of one id keeps everything told when it tells of that order. -/
theorem Told.step {before state state' : MatchingEngine config} (own : OrderId)
    (told : Told before state) (further : Extends state state')
    (kept : ∀ id, id ≠ own → state'.restingOrder id = state.restingOrder id)
    (now : ∀ order, before.restingOrder own = some order → ToldOf own order state') :
    Told before state' := by
  intro id order rests
  by_cases same : id = own
  · subst same
    exact now order rests
  · exact (told id order rests).quiet further (kept id same)

/-- A removal that is told keeps everything told. -/
theorem Told.removed {before state state' : MatchingEngine config} {maker : Order}
    {index : ArenaIndex} (told : Told before state) (sound : state.Sound queues)
    (further : Extends state state')
    (removed : Removed state.book state.arena queues maker.unlinked index state'.book state'.arena)
    (tells : before.restingOrder maker.id ≠ none → state'.bodies.any (tellsLeft maker.id) = true) :
    Told before state' := by
  refine told.step maker.id further (fun id other => ?_) fun order rests => .inr ?_
  · exact (removed.restingOrder sound.rep).trans (if_neg other)
  · have left : state'.restingOrder maker.id = none :=
      (removed.restingOrder sound.rep).trans (if_pos rfl)
    rw [left]
    exact tells (by rw [rests]; simp)

/-- The next iteration removes or reduces a maker that rested before the call without telling of
it: nothing remains of the maker, or it is decremented. -/
def Silences (before : MatchingEngine config) (taker : Taker) (sweep : Sweep config) : Prop :=
  sweep.remaining ≠ 0 ∧ ∃ index maker, frontMaker taker sweep.engine = some (index, maker) ∧
    before.restingOrder maker.id ≠ none ∧
    (maker.remaining = 0 ∨ sameGroup taker maker = true ∧ config.stpMode = .decrementAndCancel)

/-- An iteration that silences no maker tells what becomes of it. -/
theorem Iteration.told {before : MatchingEngine config} (sound : sweep.engine.Sound queues)
    (iteration : Iteration taker queues sweep flow) (audible : ¬Silences before taker sweep)
    (told : Told before sweep.engine) : Told before (flowEngine flow) := by
  have further := iteration.extends
  cases iteration with
  | exhausted | unmatched | newest => exact told
  | stale left front spent removed =>
    exact told.removed sound further removed fun rested =>
      absurd ⟨left, _, _, front.frontMaker_eq sound.rep, rested, .inl spent⟩ audible
  | oldest _ front _ _ _ removed =>
    exact told.removed sound further removed fun _ => by simp [flowEngine, tellsLeft]
  | both _ front _ _ _ removed =>
    exact told.removed sound further removed fun _ => by simp [flowEngine, tellsLeft]
  | decrementAll left front _ group mode _ removed =>
    exact told.removed sound further removed fun rested =>
      absurd ⟨left, _, _, front.frontMaker_eq sound.rep, rested, .inr ⟨group, mode⟩⟩ audible
  | decrementPart left front group mode _ taken =>
    refine told.step _ further (fun id other => (taken.restingOrder sound.rep).trans (if_neg other))
      fun order rests =>
        absurd ⟨left, _, _, front.frontMaker_eq sound.rep, ?_, .inr ⟨group, mode⟩⟩ audible
    rw [← Order.unlinked_id, rests]
    simp
  | fillPart _ front _ part taken =>
    refine told.step _ further (fun id other => (taken.restingOrder sound.rep).trans (if_neg other))
      fun order _ => .inr ?_
    have bound := UInt64.le_of_lt part
    have less := (Order.fill_sound (front.sound sound.rep) bound).2
    rw [← Order.unlinked_remaining, Order.fill_unlinked] at less
    have now := (taken.restingOrder sound.rep).trans (if_pos rfl)
    change MatchX.restingOrder _ _ _ = _ at now
    simp only [flowEngine, restingOrder, emitLevel_book, emitLevel_arena, traded_book,
      traded_arena, emit_book, emit_arena, withBook_book, withBook_arena, now]
    refine .inr ?_
    simp [tellsRemaining, less]
  | fillAll _ front _ _ _ taken _ removed =>
    rename_i price index maker book arena book' arena' left live apart whole depth
    refine told.step maker.id further (fun id other => ?_) fun order _ => .inr ?_
    · exact ((removed.restingOrder taken.represents).trans (if_neg other)).trans
        ((taken.restingOrder sound.rep).trans (if_neg other))
    · have now := (removed.restingOrder taken.represents).trans (if_pos rfl)
      change MatchX.restingOrder _ _ maker.id = _ at now
      simp only [flowEngine, restingOrder, withBook_book, withBook_arena, now]
      simp [tellsLeft]

/-- Resting an order under an id that did not rest before the call keeps everything told. -/
theorem Rested.told {before : MatchingEngine config} {order : NewOrder} {qty : UInt64}
    (sound : engine.Sound queues) (rested : Rested engine queues order qty engine')
    (told : Told before engine)
    (fresh : engine.book.lookup order.id = none → before.restingOrder order.id ≠ none →
      ∃ price qty, .orderModified order.id price qty ∈ engine.bodies) : Told before engine' := by
  have further : Extends engine engine' := ⟨_, rested.bodies_eq.symm⟩
  cases rested with
  | refused => exact told.quiet further fun _ => rfl
  | inserted _ inserted =>
    refine told.step order.id further
      (fun id other => (inserted.restingOrder sound.rep).trans (if_neg other)) fun stored rests => ?_
    obtain ⟨price, qty', member⟩ := fresh inserted.unused (by rw [rests]; simp)
    exact .inl ⟨price, qty', further.subset member⟩

/-- A call silences no order that rested before it: no iteration of its sweeps does, and no stop
that fires takes up an id that has left the book. -/
structure SilencesNone (engine : MatchingEngine config) (command : Command) : Prop where
  /-- No iteration silences a maker. -/
  makers : ∀ site order sweep, Sweeps engine command site order sweep →
    ¬Silences engine (takerOf order) sweep
  /-- No stop takes up the id of an order that has left. -/
  ids : ∀ start before site order, engine.clearEvents.dispatch command = .ok start →
    Fires start before site order → engine.restingOrder order.id ≠ none →
    site.book.lookup order.id ≠ none

/-- A stop may take up the id of no order that rested before the call, nor may the order of the
command; the replacement of a modified order may, once the modification is told. -/
theorem SilencesNone.fresh (audible : SilencesNone engine command) (sound : engine.Sound queues)
    {site : MatchingEngine config} {order : NewOrder} (submits : Submits engine command site order)
    (unused : site.book.lookup order.id = none) (rested : engine.restingOrder order.id ≠ none) :
    ∃ price qty, .orderModified order.id price qty ∈ site.bodies := by
  cases submits with
  | direct =>
    refine absurd ?_ rested
    change engine.book.lookup order.id = none at unused
    rw [restingOrder, MatchX.restingOrder, unused, Option.bind_none]
  | replaced asked held withdrawn =>
    rename_i id newPrice newQty index
    have begins : engine.clearEvents.Sound queues := sound.congr rfl rfl
    refine ⟨newPrice, newQty, ?_⟩
    cases withdraw_cases begins held withdrawn with
    | removed => simp [replacement]
  | triggered dispatched fired => exact absurd unused (audible.ids _ _ _ _ dispatched fired rested)

/-- A call that silences no order tells what becomes of every order that rested before it. -/
theorem told_kept (audible : SilencesNone engine command)
    (before : ∃ queues, engine.Sound queues) :
    Kept engine command fun state => (∃ queues, state.Sound queues) ∧ Told engine state where
  cancels id after asked := by
    rintro ⟨⟨queues, sound⟩, told⟩ returned
    refine ⟨(sound_kept engine command).cancels id after asked ⟨queues, sound⟩ returned, ?_⟩
    cases processCancel_cases sound returned with
    | missing => exact told.quiet (by simp [Extends]) fun _ => rfl
    | removed _ _ named removed =>
      exact told.removed sound (by simp [Extends]) removed fun _ => by simp [tellsLeft, named]
  withdraws id newPrice newQty index site order asked := by
    rintro ⟨⟨queues, sound⟩, told⟩ held withdrawn
    refine ⟨(sound_kept engine command).withdraws id newPrice newQty index site order asked
      ⟨queues, sound⟩ held withdrawn, ?_⟩
    obtain ⟨stored, found', named⟩ := sound.held held
    cases withdraw_cases sound held withdrawn with
    | removed found removed =>
      obtain rfl := Option.some.inj (found'.symm.trans found)
      exact told.removed sound (by simp [Extends]) removed fun _ => by simp [tellsLeft, named]
  misses id _ _ _ := by
    rintro ⟨⟨queues, sound⟩, told⟩
    exact ⟨⟨queues, sound.congr rfl rfl⟩, told.quiet (by simp [Extends]) fun _ => rfl⟩
  fires start before site order _ fired := by
    rintro ⟨⟨queues, sound⟩, told⟩
    refine ⟨⟨queues, sound.congr fired.kept.1 fired.kept.2⟩,
      told.quiet ⟨_, fired.bodies_eq.symm⟩ fun id => ?_⟩
    rw [restingOrder, restingOrder, fired.kept.1, fired.kept.2]
  handles site order after submits := by
    rintro ⟨⟨queues, sound⟩, told⟩ returned
    obtain ⟨queues₀, sound₀⟩ := before
    have handled := processNewOrder_cases sound returned
    refine ⟨handled.sound sound, ?_⟩
    have accepted : Told engine (site.accept order) := told.quiet (by simp [Extends]) fun _ => rfl
    have fresh := audible.fresh sound₀ submits
    cases handled with
    | rejected => exact told.quiet (by simp [Extends]) fun _ => rfl
    | parked _ _ book arena bodies =>
      refine accepted.quiet ?_ fun id => ?_
      · exact ⟨[], (List.append_nil _).trans bodies.symm⟩
      · rw [restingOrder, restingOrder, book, arena]
        rfl
    | posted kind apart rested =>
      refine rested.told (sound.accept order) accepted fun unused rested => ?_
      obtain ⟨price, qty, member⟩ := fresh unused rested
      exact ⟨price, qty, by rw [accept_bodies]; exact List.mem_append_left _ member⟩
    | matched kind checks swept sound' settled =>
      obtain ⟨-, -, -, -, -, -, told'⟩ := sweep_keeps (fun state => Told engine state)
        (fun _ _ _ visits held before _ iteration => iteration.told held
          (audible.makers site order _ ⟨submits, kind, checks, visits⟩) before)
        rfl (sound.accept order) accepted swept
      obtain ⟨further, -⟩ := swept_emitted (fun _ => True) (sound.accept order)
        (fun _ _ _ _ _ _ => trivial) swept
      cases settled with
      | prevented => exact told'.quiet (by simp [Extends]) fun _ => rfl
      | filled => exact told'
      | rested free left keeps rested =>
        refine rested.told sound' told' fun _ rested => ?_
        obtain ⟨price, qty, member⟩ := fresh (refusal_none checks).2.1 rested
        refine ⟨price, qty, further.subset ?_⟩
        rw [accept_bodies]
        exact List.mem_append_left _ member
      | dropped => exact told'.quiet (by simp [Extends]) fun _ => rfl

/-- In every reachable state, a completed call that silences no order reports every order that
has left or of which less remains. -/
theorem reported_unless_silenced (config : InstrumentConfig) (engine : MatchingEngine config)
    (command : Command) (after : MatchingEngine config) (reachable : Reachable engine)
    (audible : SilencesNone engine command) (completed : engine.process command = .ok after) :
    Reported engine after := by
  have before := Reaches.sound reachable
  obtain ⟨queues, sound⟩ := before
  have begins : Told engine engine.clearEvents := fun id order rests => by
    have same : engine.clearEvents.restingOrder id = some order := rests
    refine .inr ?_
    rw [same]
    exact .inl rfl
  obtain ⟨-, told⟩ := (told_kept audible ⟨queues, sound⟩).returns
    ⟨⟨queues, sound.congr rfl rfl⟩, begins⟩ completed
  intro id order rests
  have mentions : (∃ price qty, .orderModified id price qty ∈ after.bodies) →
      after.bodies.any (tellsLeft id) = true ∧
        ∀ left, after.bodies.any (tellsRemaining id left) = true := by
    rintro ⟨price, qty, member⟩
    exact ⟨List.any_eq_true.mpr ⟨_, member, by simp [tellsLeft]⟩,
      fun left => List.any_eq_true.mpr ⟨_, member, by simp [tellsRemaining]⟩⟩
  have tells := told id order rests
  split
  · rename_i gone
    rw [ToldOf, gone] at tells
    exact tells.elim (fun modified => (mentions modified).1) fun tells => tells
  · rename_i left stays
    intro less
    rw [ToldOf, stays] at tells
    rcases tells with modified | same | tells
    · exact (mentions modified).2 _
    · rw [same] at less
      exact absurd less (UInt64.lt_irrefl _)
    · exact tells

/-- A command that submits its own order and no stop, whose sweep meets only makers of which
something remains, silences no order in a mode that does not decrement. -/
theorem silencesNone_of_loneSweep (mode : config.stpMode ≠ .decrementAndCancel)
    (passes : loneSweep (fun order sweep => (frontMaker (takerOf order) sweep.engine).all
      fun front => front.2.remaining != 0) engine command = true) :
    SilencesNone engine command where
  makers site order sweep sweeps := by
    rintro ⟨-, index, maker, front, -, spent | ⟨-, mode'⟩⟩
    · have live := Sweeps.of_loneSweep passes sweeps
      simp [front, spent] at live
    · exact mode mode'
  ids start before site order dispatched fired rested unused := by
    unfold loneSweep at passes
    rw [Bool.and_eq_true] at passes
    obtain ⟨rfl, -⟩ := (Submits.triggered dispatched fired).of_lone passes.1
    refine rested ?_
    change engine.book.lookup order.id = none at unused
    rw [restingOrder, MatchX.restingOrder, unused, Option.bind_none]

/-- A bid that takes part of an ask reports it. -/
theorem reported_after_fill :
    ∃ engine after : MatchingEngine (smallConfig .cancelNewest), Reported engine after ∧
      ((engine.restingOrder 1).any (·.remaining == 10) &&
        (after.restingOrder 1).any (·.remaining == 6)) = true := by
  obtain ⟨engine, reachable, shown⟩ := Reachable.exists_run
    (fun engine : MatchingEngine (smallConfig .cancelNewest) =>
      loneSweep (fun order sweep => (frontMaker (takerOf order) sweep.engine).all
        fun front => front.2.remaining != 0) engine (.submit (.gtc 2 .bid 2 4)) &&
      (engine.process (.submit (.gtc 2 .bid 2 4))).toOption.any fun after =>
        (engine.restingOrder 1).any (·.remaining == 10) &&
          (after.restingOrder 1).any (·.remaining == 6)) 8
    [.submit (.gtc 1 .ask 2 10)] (by decide +kernel)
  rw [Bool.and_eq_true] at shown
  obtain ⟨after, completed, less⟩ := (Option.any_eq_true _ _).mp shown.2
  exact ⟨engine, after, reported_unless_silenced _ engine _ after reachable
    (silencesNone_of_loneSweep (by decide) shown.1) (ok_of_toOption completed), less⟩

/-- A bid that decrements an ask of its group leaves less of the ask without telling it. -/
theorem unreported_after_decrement :
    ¬∀ (engine : MatchingEngine (smallConfig .decrementAndCancel)) command after,
      Reachable engine → engine.process command = .ok after → Reported engine after := by
  intro always
  obtain ⟨engine, reachable, shown⟩ := Reachable.exists_run
    (fun engine : MatchingEngine (smallConfig .decrementAndCancel) =>
      (engine.process (.submit { NewOrder.gtc 2 .bid 2 4 with stpGroup := some 1 })).toOption.any
        fun after => ((engine.restingOrder 1).map Order.remaining == some 10) &&
          ((after.restingOrder 1).map Order.remaining == some 6 &&
            !after.bodies.any (tellsRemaining 1 6))) 8
    [.submit { NewOrder.gtc 1 .ask 2 10 with stpGroup := some 1 }] (by decide +kernel)
  obtain ⟨after, completed, facts⟩ := (Option.any_eq_true _ _).mp shown
  rw [Bool.and_eq_true, Bool.and_eq_true, beq_iff_eq, beq_iff_eq, Option.map_eq_some_iff,
    Option.map_eq_some_iff, Bool.not_eq_true'] at facts
  obtain ⟨⟨order, rests, before⟩, ⟨left, stays, now⟩, audible⟩ := facts
  have tells := always engine _ after reachable (ok_of_toOption completed) 1 order rests
  rw [stays] at tells
  simp only [before, now, audible] at tells
  exact absurd (tells (by decide)) (by decide)

end MatchingEngine

end MatchX
