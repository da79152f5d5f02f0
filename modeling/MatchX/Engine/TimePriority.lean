import MatchX.Engine.Moments
import MatchX.Support.Runs

/-!
# Time priority

An order was inserted before another one when from some moment on it has rested without a break,
and the other one did not rest at that moment. Whoever was inserted before stands in front at its
level, whatever is inserted, removed, filled and reduced in between, and a fill is one of the
first order of its level: no order is filled while one inserted before it rests at its level.
-/

namespace MatchX

open MatchX.Support

namespace MatchingEngine

variable {config : InstrumentConfig} {calls : List (MatchingEngine config × Command)}
  {last now next begins : MatchingEngine config} {past rest later : List (MatchingEngine config)}
  {front back : OrderId}

/-- At the last of some moments the first order had been inserted before the second: from one of
them on it rests without a break, and there the second does not rest. -/
def InsertedBefore (first second : OrderId) (moments : List (MatchingEngine config)) : Prop :=
  CameBefore RestsUnder first second moments

/-- The moments of a run are a chain of steps from a new engine, and every moment shows lines. -/
theorem chain_of_run (trace : Trace IsNew process calls last) :
    ∃ capacity, (new config capacity :: runMoments calls).IsChain Step ∧
      (∀ state ∈ new config capacity :: runMoments calls, ∃ lines, ShowsLines state lines) ∧
      (new config capacity :: runMoments calls).getLast? = some last := by
  obtain ⟨capacity, passes⟩ := run_passes trace
  refine ⟨capacity, passes.isChain, ?_, passes.getLast⟩
  exact exists_shown (fun _ _ step => Step.follows step) ⟨_, _, sound_new config capacity, rfl⟩
    passes.isChain

/-- Two moments in a row of a run are a step, which a chain of steps leads to, and up to there every
moment shows lines. -/
theorem moments_of_run (trace : Trace IsNew process calls last)
    (moments : runMoments calls = past ++ now :: next :: rest) :
    Step now next ∧ (past ++ [now]).IsChain Step ∧
      ∀ state ∈ past ++ [now], ∃ lines, ShowsLines state lines := by
  obtain ⟨capacity, chain, shown, -⟩ := chain_of_run trace
  rw [moments] at chain shown
  obtain ⟨before, step, -⟩ := List.isChain_append_cons_cons.mp
    (chain.suffix (List.suffix_cons _ _))
  refine ⟨step, before, fun state member => shown state (List.mem_cons_of_mem _ ?_)⟩
  rcases List.mem_append.mp member with inPast | isNow
  · exact List.mem_append_left _ inPast
  · obtain rfl := List.mem_singleton.mp isNow
    exact List.mem_append_right _ List.mem_cons_self

/-- What the lines have at some moment, and moves keep as long as some orders rest, they have as long
as these rest. -/
theorem kept_now {inv : Lines (Side × UInt64) OrderId → Prop}
    (trace : Trace IsNew process calls last)
    (moments : runMoments calls = past ++ now :: next :: rest)
    (since : (begins :: later) <:+ past ++ [now])
    (keeps : ∀ state ∈ begins :: later, ∀ following ∈ begins :: later, ∀ lines lines',
      ShowsLines state lines → ShowsLines following lines' → Lines.Moves lines lines' →
        inv lines → inv lines')
    (held : ∃ lines, ShowsLines begins lines ∧ inv lines) :
    ∃ lines, ShowsLines now lines ∧ inv lines := by
  obtain ⟨-, chain, -⟩ := moments_of_run trace moments
  refine kept_at_last (fun _ _ step => Step.follows step) keeps held (chain.suffix since) now ?_
  obtain ⟨earlier, parts⟩ := since
  have ends := congrArg List.getLast? parts
  rwa [List.getLast?_append_cons, List.getLast?_concat] at ends

/-- Whoever was inserted before another order is in front of it. -/
theorem InsertedBefore.inFront (trace : Trace IsNew process calls last)
    (moments : runMoments calls = past ++ now :: next :: rest)
    (inserted : InsertedBefore front back (past ++ [now])) :
    ∃ lines, ShowsLines now lines ∧ lines.InFront front back := by
  obtain ⟨begins, later, since, absent, rests⟩ := inserted
  obtain ⟨-, -, shown⟩ := moments_of_run trace moments
  obtain ⟨lines, shows⟩ := shown begins (since.subset List.mem_cons_self)
  refine kept_now trace moments since (fun state member _ _ lines lines' shows _ moves order => ?_)
    ⟨lines, shows, Lines.InFront.of_absent fun stands => absent (shows.rests_iff.mpr stands)⟩
  exact moves.inFront shows.distinct (shows.rests_iff.mp (rests state member)) order

/-- In a step at most one order comes to rest. -/
theorem Step.single (step : Step now next) (shown : ∃ lines, ShowsLines now lines)
    (here : next.RestsUnder front) (there : next.RestsUnder back) (absent : ¬now.RestsUnder front)
    (absent' : ¬now.RestsUnder back) : front = back := by
  obtain ⟨lines, shows⟩ := shown
  obtain ⟨lines', shows', moves⟩ := step.follows lines shows
  rw [shows'.rests_iff] at here there
  rw [shows.rests_iff] at absent absent'
  exact moves.single here there absent absent'

/-- No order is filled while one that is in front of it stands in its line. -/
theorem Step.not_behind (step : Step now next) {makerId takerId : OrderId}
    {price qty makerLeft takerLeft : UInt64} {lines : Lines (Side × UInt64) OrderId}
    {place : Side × UInt64}
    (emitted : .fill makerId takerId price qty makerLeft takerLeft ∈ emittedSince now next)
    (shows : ShowsLines now lines) (inFront : lines.InFront front makerId)
    (here : front ∈ lines place) (there : makerId ∈ lines place) : False := by
  obtain ⟨maker, fills⟩ := step.fills lines shows makerId takerId price qty makerLeft takerLeft
    emitted
  have same := shows.distinct.single (List.mem_of_mem_head? fills.first) there
  exact inFront.not_first shows.distinct (same ▸ fills.first) here

/-- Nothing rests in a new engine. -/
theorem not_rests_new (capacity : UInt32) (id : OrderId) : ¬(new config capacity).RestsUnder id := by
  have shows : ShowsLines (new config capacity) _ := ⟨_, sound_new config capacity, rfl⟩
  rw [shows.rests_iff]
  rintro ⟨place, stands⟩
  cases stands

/-- Of two orders that rest at a moment of a run one was inserted before the other. -/
theorem insertedBefore_total (trace : Trace IsNew process calls last)
    (moments : runMoments calls = past ++ now :: next :: rest) (apart : front ≠ back)
    (here : now.RestsUnder front) (there : now.RestsUnder back) :
    InsertedBefore front back (past ++ [now]) ∨ InsertedBefore back front (past ++ [now]) := by
  obtain ⟨capacity, chain, shown, -⟩ := chain_of_run trace
  have parts : new config capacity :: runMoments calls =
      new config capacity :: (past ++ [now]) ++ next :: rest := by
    rw [moments]
    simp
  rw [parts] at chain shown
  refine cameBefore_total (not_rests_new capacity) ?_ (List.isChain_append.mp chain).1 now ?_
    front back apart here there
  · intro state member following step first second
    exact step.single (shown state (List.mem_append_left _ member))
  · rw [← List.cons_append, List.getLast?_concat]

/-- Every report of the last call of a run is one of a step between two of its moments. -/
theorem reported_in_run {body : EventBody} (trace : Trace IsNew process calls last)
    (member : body ∈ last.bodies) : ∃ past now next rest,
      runMoments calls = past ++ now :: next :: rest ∧ body ∈ emittedSince now next := by
  cases trace with
  | start isNew =>
    obtain ⟨capacity, rfl⟩ := isNew
    cases member
  | @step earlier engine _ command trace completed =>
    obtain ⟨capacity, -, shown, ends⟩ := chain_of_run trace
    obtain ⟨lines, shows⟩ := shown engine (List.mem_of_getLast? ends)
    have passes := call_passes completed
    -- The call begins with an empty event buffer.
    have chain := passes.isChain.suffix (List.suffix_cons _ _)
    have shown' := exists_shown (fun _ _ step => Step.follows step) ⟨lines, shows⟩ passes.isChain
    have ends' := passes.getLast
    simp only [callMoments, List.getLast?_cons_cons] at ends'
    rcases reported_at_step (fun state inside => shown' state (List.mem_cons_of_mem _ inside)) chain
      last ends' body member with old | ⟨past, now, next, rest, parts, told⟩
    · cases old
    · refine ⟨runMoments earlier ++ past, now, next, rest, ?_, told⟩
      rw [runMoments, callMoments, parts, List.append_assoc]

/-- The maker of a fill rests, and every other order that rests at its level was inserted after it
and not before it. -/
def FilledInTime (past : List (MatchingEngine config)) (now : MatchingEngine config)
    (makerId : OrderId) (price : UInt64) : Prop :=
  ∃ b maker, now.arena.find b = some maker ∧ maker.id = makerId ∧ maker.price = price ∧
    ∀ a order, now.arena.find a = some order → order.side = maker.side →
      order.price = maker.price → order.id ≠ makerId →
      ¬InsertedBefore order.id makerId (past ++ [now]) ∧
        InsertedBefore makerId order.id (past ++ [now])

/-- In every run, whenever a step reports a fill, every other order at the level of its maker, of
whatever type and with whatever remaining, was inserted after it; and every report of the last
call is one of such a step. -/
theorem time_priority (config : InstrumentConfig)
    (calls : List (MatchingEngine config × Command)) (last : MatchingEngine config)
    (trace : Trace IsNew process calls last) :
    (∀ past now next rest, runMoments calls = past ++ now :: next :: rest →
      ∀ makerId takerId price qty makerLeft takerLeft,
        .fill makerId takerId price qty makerLeft takerLeft ∈ emittedSince now next →
          FilledInTime past now makerId price) ∧
    ∀ body ∈ last.bodies, ∃ past now next rest,
      runMoments calls = past ++ now :: next :: rest ∧ body ∈ emittedSince now next := by
  constructor
  · intro past now next rest moments makerId takerId price qty makerLeft takerLeft emitted
    obtain ⟨step, -, shown⟩ := moments_of_run trace moments
    obtain ⟨lines, shows⟩ := shown now (List.mem_append_right _ List.mem_cons_self)
    obtain ⟨maker, fills⟩ := step.fills lines shows makerId takerId price qty makerLeft takerLeft
      emitted
    obtain ⟨b, found⟩ := fills.found
    refine ⟨b, maker, found, fills.named, fills.atPrice,
      fun a order found' onSide atPrice apart => ?_⟩
    have later : ¬InsertedBefore order.id makerId (past ++ [now]) := fun inserted => by
      obtain ⟨lines', shows', inFront⟩ := inserted.inFront trace moments
      have there := shows'.mem found
      rw [fills.named, ← onSide, ← atPrice] at there
      exact step.not_behind emitted shows' inFront (shows'.mem found') there
    have rests : now.RestsUnder order.id := shows.rests_iff.mpr ⟨_, shows.mem found'⟩
    have rests' : now.RestsUnder makerId := shows.rests_iff.mpr ⟨_, fills.named ▸ shows.mem found⟩
    exact ⟨later, (insertedBefore_total trace moments apart rests rests').resolve_left later⟩
  · exact fun body member => reported_in_run trace member

/-- Commands of which the last completes, with moments that a test cuts in two, are a run with such a
cut of its moments. -/
theorem exists_moments (test : List (MatchingEngine config) → List (MatchingEngine config) → Bool)
    (capacity : UInt32) (commands : List Command) (command : Command)
    (passes : (checkedRun (fun _ _ => true) process commands (new config capacity)).any
      (fun before => (before.process command).toOption.isSome &&
        anySplit test (before.callMoments command)) = true) :
    ∃ calls last earlier past rest, Trace (@IsNew config) process calls last ∧
      runMoments calls = earlier ++ (past ++ rest) ∧ test past rest = true := by
  obtain ⟨calls, before, trace, -, shown⟩ := Trace.exists_checkedRun (fun _ _ => true) _
    (show IsNew (new config capacity) from ⟨capacity, rfl⟩) commands passes
  obtain ⟨completes, cut⟩ := Bool.and_eq_true_iff.mp shown
  obtain ⟨last, completed⟩ := Option.isSome_iff_exists.mp completes
  obtain ⟨past, rest, parts, tested⟩ := exists_split cut
  refine ⟨_, last, runMoments calls, past, rest, trace.step (ok_of_toOption completed), ?_, tested⟩
  rw [runMoments, parts]

/-- Of two asks at one price the first is filled, and it was inserted before the second. -/
theorem time_priority_of_two_asks :
    ∃ (calls : List (MatchingEngine (smallConfig .cancelNewest) × Command)) (last : _)
      (past rest : List _) (now next : _), Trace IsNew process calls last ∧
      runMoments calls = past ++ now :: next :: rest ∧
      .fill 1 3 2 4 1 0 ∈ emittedSince now next ∧ InsertedBefore 1 2 (past ++ [now]) ∧
      ¬InsertedBefore 2 1 (past ++ [now]) := by
  obtain ⟨calls, last, earlier, past, rest, trace, parts, shown⟩ := exists_moments
    (fun (_ : List (MatchingEngine (smallConfig .cancelNewest))) rest =>
      match rest with
      | now :: next :: _ => (emittedSince now next).contains (.fill 1 3 2 4 1 0) &&
        now.arena.orders.all (fun order => order.side == .ask && order.price == 2) &&
        (now.arena.find 1).any fun order => order.id == 2
      | _ => false) 8 [.submit (.gtc 1 .ask 2 5), .submit (.gtc 2 .ask 2 5)]
    (.submit (.gtc 3 .bid 2 4)) (by decide +kernel)
  split at shown
  · rename_i now next rest
    simp only [Bool.and_eq_true, List.contains_iff_mem, List.all_eq_true, Option.any_eq_true,
      beq_iff_eq] at shown
    obtain ⟨⟨filled, level⟩, order, found, named⟩ := shown
    have moments : runMoments calls = (earlier ++ past) ++ now :: next :: rest := by
      rw [parts, List.append_assoc]
    obtain ⟨b, maker, found', -, -, priority⟩ := (time_priority _ calls last trace).1 _ now next
      rest moments 1 3 2 4 1 0 filled
    obtain ⟨onSide, atPrice⟩ := level order (Arena.mem_orders_of_find found)
    obtain ⟨onSide', atPrice'⟩ := level maker (Arena.mem_orders_of_find found')
    have first := priority 1 order found (onSide.trans onSide'.symm) (atPrice.trans atPrice'.symm)
      (by rw [named]; decide)
    rw [named] at first
    exact ⟨calls, last, earlier ++ past, rest, now, next, trace, moments, filled, first.2, first.1⟩
  · contradiction

end MatchingEngine

end MatchX
