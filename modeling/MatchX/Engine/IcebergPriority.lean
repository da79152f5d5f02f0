import MatchX.Engine.TimePriority

/-!
# Icebergs in their queues

An iceberg shows a slice at a time, and a fill takes no more than what is left of the slice. Which
slice it is in follows from how much of it is filled; when a slice is used up nothing is written,
so the iceberg stays where it stands, in front of whoever waits behind it, and its next slice
trades before they do.
-/

namespace MatchX

open MatchX.Support

/-- The order is an iceberg with slices. -/
def Order.Sliced (order : Order) : Prop := order.orderType = .iceberg ∧ 0 < order.visibleQuantity

instance (order : Order) : Decidable order.Sliced :=
  inferInstanceAs (Decidable (_ ∧ _))

/-- What is left of the current slice bounds what can be matched. -/
theorem Order.matchableQty_slice {order : Order} (sliced : order.Sliced) :
    order.filled.toNat % order.visibleQuantity.toNat + order.matchableQty.toNat ≤
      order.visibleQuantity.toNat := by
  have peak : 0 < order.visibleQuantity.toNat := UInt64.lt_iff_toNat_lt.mp sliced.2
  have within : order.filled % order.visibleQuantity < order.visibleQuantity :=
    UInt64.mod_lt _ sliced.2
  have slice : order.matchableQty ≤ order.visibleQuantity - order.filled % order.visibleQuantity := by
    have applies : order.orderType = .iceberg ∧ 0 < order.visibleQuantity := sliced
    rw [matchableQty, if_pos applies]
    exact Std.min_le_left
  have bound := UInt64.le_iff_toNat_le.mp slice
  rw [UInt64.toNat_sub_of_le _ _ (UInt64.le_of_lt within), UInt64.toNat_mod] at bound
  have begun := Nat.mod_lt order.filled.toNat peak
  omega

namespace MatchingEngine

variable {config : InstrumentConfig} {calls : List (MatchingEngine config × Command)}
  {last now next before after : MatchingEngine config} {past rest : List (MatchingEngine config)}
  {iceberg waiting : OrderId}

/-- A step reports a fill of an iceberg that uses up its slice with quantity left. -/
structure SliceEnds (before after : MatchingEngine config) (iceberg : OrderId) : Prop where
  /-- The step reports a fill of the iceberg. -/
  filled : ∃ takerId price qty makerLeft takerLeft,
    .fill iceberg takerId price qty makerLeft takerLeft ∈ emittedSince before after
  /-- The iceberg rests with quantity left, filled by whole slices. -/
  whole : ∃ i order, after.arena.find i = some order ∧ order.id = iceberg ∧ order.Sliced ∧
    order.remaining ≠ 0 ∧ order.filled % order.visibleQuantity = 0

/-- Two orders rest at one level. -/
def SameLevel (engine : MatchingEngine config) (first second : OrderId) : Prop :=
  ∃ i j order other, engine.arena.find i = some order ∧ engine.arena.find j = some other ∧
    order.id = first ∧ other.id = second ∧ order.side = other.side ∧ order.price = other.price

/-- At the last of some moments an order waits that was waiting behind an iceberg when a fill used up
the iceberg's slice: both have rested without a break since. -/
def WaitsSinceSlice (iceberg waiting : OrderId) (moments : List (MatchingEngine config)) : Prop :=
  ∃ before after later, (before :: after :: later) <:+ moments ∧ SliceEnds before after iceberg ∧
    waiting ≠ iceberg ∧ SameLevel before iceberg waiting ∧
    ∀ state ∈ before :: after :: later, state.RestsUnder iceberg ∧ state.RestsUnder waiting

/-- Two orders of one level stand in one line. -/
theorem SameLevel.together {lines : Lines (Side × UInt64) OrderId} {first second : OrderId}
    (same : SameLevel now first second) (shows : ShowsLines now lines) :
    ∃ place, first ∈ lines place ∧ second ∈ lines place := by
  obtain ⟨i, j, order, other, found, found', rfl, rfl, onSide, atPrice⟩ := same
  have there := shows.mem found'
  rw [← onSide, ← atPrice] at there
  exact ⟨_, shows.mem found, there⟩

/-- An iceberg stays in front of whoever waits behind it since its slice was used up. -/
theorem WaitsSinceSlice.inFront (trace : Trace IsNew process calls last)
    (moments : runMoments calls = past ++ now :: next :: rest)
    (waits : WaitsSinceSlice iceberg waiting (past ++ [now])) :
    ∃ lines, ShowsLines now lines ∧ lines.InFront iceberg waiting ∧
      ∃ place, iceberg ∈ lines place ∧ waiting ∈ lines place := by
  obtain ⟨before, after, later, since, ends, apart, same, rests⟩ := waits
  obtain ⟨-, chain, shown⟩ := moments_of_run trace moments
  obtain ⟨step, -⟩ := List.isChain_cons_cons.mp (chain.suffix since)
  obtain ⟨lines, shows⟩ := shown before (since.subset List.mem_cons_self)
  obtain ⟨takerId, price, qty, makerLeft, takerLeft, emitted⟩ := ends.filled
  obtain ⟨maker, fills⟩ := step.fills lines shows iceberg takerId price qty makerLeft takerLeft
    emitted
  have first : lines.InFront iceberg waiting := .of_first shows.distinct fills.first apart
  refine kept_now trace moments since ?_ ⟨lines, shows, first, same.together shows⟩
  rintro state member following member' lines lines' shows shows' moves ⟨order, place, here, there⟩
  have stays := moves.stays shows.distinct here
    (shows'.rests_iff.mp (rests following member').1)
  have stays' := moves.stays shows.distinct there
    (shows'.rests_iff.mp (rests following member').2)
  exact ⟨moves.inFront shows.distinct ⟨place, here⟩ order, place, stays, stays'⟩

/-- In every run, no fill has as its maker an order that waits behind an iceberg since the iceberg's
slice was used up; and a fill of an iceberg takes no more than what is left of its slice. -/
theorem iceberg_keeps_place (config : InstrumentConfig)
    (calls : List (MatchingEngine config × Command)) (last : MatchingEngine config)
    (trace : Trace IsNew process calls last) (past rest : List (MatchingEngine config))
    (now next : MatchingEngine config) (moments : runMoments calls = past ++ now :: next :: rest)
    (makerId takerId : OrderId) (price qty makerLeft takerLeft : UInt64)
    (emitted : .fill makerId takerId price qty makerLeft takerLeft ∈ emittedSince now next) :
    (∀ iceberg, ¬WaitsSinceSlice iceberg makerId (past ++ [now])) ∧
    ∃ i maker, now.arena.find i = some maker ∧ maker.id = makerId ∧ (maker.Sliced →
      maker.filled.toNat % maker.visibleQuantity.toNat + qty.toNat ≤
        maker.visibleQuantity.toNat) := by
  obtain ⟨step, -, shown⟩ := moments_of_run trace moments
  constructor
  · intro iceberg waits
    obtain ⟨lines, shows, inFront, place, here, there⟩ := waits.inFront trace moments
    exact step.not_behind emitted shows inFront here there
  · obtain ⟨lines, shows⟩ := shown now (List.mem_append_right _ List.mem_cons_self)
    obtain ⟨maker, fills⟩ := step.fills lines shows makerId takerId price qty makerLeft takerLeft
      emitted
    obtain ⟨i, found⟩ := fills.found
    refine ⟨i, maker, found, fills.named, fun sliced => ?_⟩
    have bound := UInt64.le_iff_toNat_le.mp fills.bound
    have slice := Order.matchableQty_slice sliced
    omega

/-- A bid that takes more than a slice of an iceberg with an order behind it: the second fill is of
the iceberg again, and the order behind it has waited since the first. -/
theorem exists_next_slice : ∃ (calls : List (MatchingEngine (smallConfig .cancelNewest) × Command))
    (last : _) (past rest : List _) (now next : _), Trace IsNew process calls last ∧
    runMoments calls = past ++ now :: next :: rest ∧
    .fill 1 3 2 2 3 0 ∈ emittedSince now next ∧ WaitsSinceSlice 1 2 (past ++ [now]) := by
  obtain ⟨calls, last, earlier, past, rest, trace, parts, shown⟩ := exists_moments
    (fun (_ : List (MatchingEngine (smallConfig .cancelNewest))) rest =>
      match rest with
      | before :: now :: next :: _ =>
        (emittedSince before now).contains (.fill 1 3 2 5 5 2) &&
        (emittedSince now next).contains (.fill 1 3 2 2 3 0) &&
        ((now.arena.find 0).any fun order => order.id == 1 && decide order.Sliced &&
          order.remaining != 0 && order.filled % order.visibleQuantity == 0) &&
        ((before.arena.find 0).any fun order => order.id == 1 && order.side == .ask &&
          order.price == 2) &&
        ((before.arena.find 1).any fun order => order.id == 2 && order.side == .ask &&
          order.price == 2) &&
        [before, now].all fun state =>
          (state.book.lookup 1).isSome && (state.book.lookup 2).isSome
      | _ => false) 8
    [.submit { NewOrder.gtc 1 .ask 2 10 with orderType := .iceberg, visibleQty := some 5 },
      .submit (.gtc 2 .ask 2 5)]
    (.submit (.gtc 3 .bid 2 7)) (by decide +kernel)
  split at shown
  · rename_i before now next rest
    simp only [Bool.and_eq_true, List.contains_iff_mem, List.all_eq_true, Option.any_eq_true,
      decide_eq_true_eq, bne_iff_ne, beq_iff_eq] at shown
    obtain ⟨⟨⟨⟨⟨first, second⟩, order, found, ⟨⟨named, sliced⟩, left⟩, whole⟩, maker, found',
      ⟨named', onSide⟩, atPrice⟩, other, found'', ⟨named'', onSide'⟩, atPrice'⟩, rests⟩ := shown
    have ends : SliceEnds before now 1 :=
      ⟨⟨3, 2, 5, 5, 2, first⟩, 0, order, found, named, sliced, left, whole⟩
    have same : SameLevel before 1 2 := ⟨0, 1, maker, other, found', found'', named', named'',
      onSide.trans onSide'.symm, atPrice.trans atPrice'.symm⟩
    refine ⟨calls, last, earlier ++ past ++ [before], rest, now, next, trace, ?_, second,
      before, now, [], ⟨earlier ++ past, by simp⟩, ends, by decide, same, ?_⟩
    · rw [parts]
      simp
    · intro state member
      obtain ⟨here, there⟩ := rests state member
      exact ⟨Option.isSome_iff_ne_none.mp here, Option.isSome_iff_ne_none.mp there⟩
  · contradiction

/-- The second slice of an iceberg is filled while an order waits behind it. -/
theorem iceberg_keeps_place_next_slice :
    ∃ (calls : List (MatchingEngine (smallConfig .cancelNewest) × Command))
      (last : _) (past rest : List _) (now next : _), Trace IsNew process calls last ∧
      runMoments calls = past ++ now :: next :: rest ∧
      .fill 1 3 2 2 3 0 ∈ emittedSince now next ∧ WaitsSinceSlice 1 2 (past ++ [now]) ∧
      (∀ iceberg, ¬WaitsSinceSlice iceberg 1 (past ++ [now])) ∧
      ∃ i maker, now.arena.find i = some maker ∧ maker.id = 1 ∧ (maker.Sliced →
        maker.filled.toNat % maker.visibleQuantity.toNat + (2 : UInt64).toNat ≤
          maker.visibleQuantity.toNat) := by
  obtain ⟨calls, last, past, rest, now, next, trace, moments, filled, waits⟩ := exists_next_slice
  exact ⟨calls, last, past, rest, now, next, trace, moments, filled, waits,
    iceberg_keeps_place _ calls last trace past rest now next moments 1 3 2 2 3 0 filled⟩

/-- It is not so that the orders waiting behind an iceberg leave before its next slice trades. -/
theorem iceberg_not_to_back : ¬∀ (config : InstrumentConfig)
    (calls : List (MatchingEngine config × Command)) (last : MatchingEngine config)
    (past rest : List (MatchingEngine config)) (now next : MatchingEngine config),
    Trace IsNew process calls last → runMoments calls = past ++ now :: next :: rest →
    ∀ iceberg takerId price qty makerLeft takerLeft,
      .fill iceberg takerId price qty makerLeft takerLeft ∈ emittedSince now next →
        ∀ waiting, ¬WaitsSinceSlice iceberg waiting (past ++ [now]) := by
  intro leaves
  obtain ⟨calls, last, past, rest, now, next, trace, moments, filled, waits⟩ := exists_next_slice
  exact leaves _ calls last past rest now next trace moments 1 3 2 2 3 0 filled 2 waits

end MatchingEngine

end MatchX
