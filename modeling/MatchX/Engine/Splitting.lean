import MatchX.Engine.Faults
import MatchX.Engine.Outcome
import MatchX.Engine.Tally

/-!
# Parting a taker

A taker of two quantities leaves what two takers leave that bring the quantities one after the
other. Up to the iteration in which the first of them ends, the iterations of both runs are the
same, with the second quantity on top in the one. In that iteration the two takers fill one slice
in two parts, and the one taker at once.
-/

namespace MatchX

open MatchX.Support

/-- Part of a slice leaves the rest of the slice. -/
theorem Order.matchableQty_fill {maker : Order} {part : UInt64}
    (sound : maker.filled ≤ maker.quantity) (below : part < maker.matchableQty) :
    (maker.fill part).matchableQty = maker.matchableQty - part := by
  have within : part ≤ maker.remaining :=
    UInt64.le_trans (UInt64.le_of_lt below) Order.matchableQty_le
  have less := (Order.fill_sound sound within).2
  have kind : (maker.fill part).orderType = maker.orderType := rfl
  have peak : (maker.fill part).visibleQuantity = maker.visibleQuantity := rfl
  unfold Order.matchableQty at below ⊢
  rw [kind, peak, less]
  by_cases iceberg : maker.orderType = .iceberg ∧ 0 < maker.visibleQuantity
  · simp only [if_pos iceberg, Order.fill_filled] at below ⊢
    have peaks := UInt64.lt_iff_toNat_lt.mp iceberg.2
    have offset := Nat.mod_lt maker.filled.toNat peaks
    have rest := Order.toNat_remaining sound
    have most := UInt64.le_iff_toNat_le.mp within
    have cap := maker.quantity.toNat_lt
    have slice : maker.filled % maker.visibleQuantity ≤ maker.visibleQuantity :=
      UInt64.le_of_lt (UInt64.mod_lt _ iceberg.2)
    have short := UInt64.lt_iff_toNat_lt.mp below
    rw [toNat_min, UInt64.toNat_sub_of_le _ _ slice, UInt64.toNat_mod] at short
    have sum : (maker.filled + part).toNat = maker.filled.toNat + part.toNat := by
      rw [UInt64.toNat_add]
      omega
    have position : ((maker.filled + part) % maker.visibleQuantity).toNat =
        (maker.filled % maker.visibleQuantity).toNat + part.toNat := by
      rw [UInt64.toNat_mod, UInt64.toNat_mod, sum, Nat.add_mod, Nat.mod_eq_of_lt (a := part.toNat),
        Nat.mod_eq_of_lt] <;> omega
    have slice' : (maker.filled + part) % maker.visibleQuantity ≤ maker.visibleQuantity :=
      UInt64.le_of_lt (UInt64.mod_lt _ iceberg.2)
    have offset' : (maker.filled % maker.visibleQuantity).toNat =
        maker.filled.toNat % maker.visibleQuantity.toNat := UInt64.toNat_mod _ _
    have ordered := UInt64.le_of_lt below
    apply UInt64.toNat_inj.mp
    rw [UInt64.toNat_sub_of_le _ _ ordered, toNat_min, toNat_min,
      UInt64.toNat_sub_of_le _ _ slice', UInt64.toNat_sub_of_le _ _ slice,
      UInt64.toNat_sub_of_le _ _ within, position]
    omega
  · simp only [if_neg iceberg]

namespace MatchingEngine

variable {config : InstrumentConfig} {side : Side} {price restingPrice : UInt64}
  {tally after : Tally config} {index : ArenaIndex} {maker : Order}
  {first second qty : UInt64} {queues : Queues} {engine : MatchingEngine config}

namespace Tally

/-- The tally with a taker of another quantity. -/
def given (tally : Tally config) (qty : UInt64) : Tally config := { tally with remaining := qty }

@[simp] theorem given_remaining : (tally.given qty).remaining = qty := rfl

/-- The tally with a taker of a quantity more. -/
def more (tally : Tally config) (qty : UInt64) : Tally config :=
  tally.given (tally.remaining + qty)

@[simp] theorem more_remaining : (tally.more qty).remaining = tally.remaining + qty := rfl

/-- A quantity that is filled leaves the quantity on top. -/
theorem took_more {arena : Arena} : (tally.more qty).took side restingPrice maker first arena =
    (tally.took side restingPrice maker first arena).more qty := by
  have left : tally.remaining + qty - first = tally.remaining - first + qty := by grind
  unfold took
  rw [more_remaining, left]
  rfl

/-- Removing a maker takes no account of the taker's quantity. -/
theorem removeMaker_more :
    (tally.more qty).removeMaker index = (tally.removeMaker index).map fun after => after.more qty := by
  unfold removeMaker
  change (tally.book.removeOrder tally.arena index >>= _) = _
  cases tally.book.removeOrder tally.arena index with
  | error fault => rfl
  | ok removed => rfl

end Tally

/-! ## One iteration -/

/-- A taker that is filled ends the loop. -/
theorem tallyStep_filled (nothing : tally.remaining = 0) :
    tallyStep side price tally = .ok (.done tally) := by rw [tallyStep, if_pos nothing]

/-- An iteration with no maker in front ends the loop. -/
theorem tallyStep_none (left : tally.remaining ≠ 0) (front : tally.front side price = .ok none) :
    tallyStep side price tally = .ok (.done tally) := by
  rw [tallyStep, if_neg left, front]
  rfl

/-- An iteration that finds no maker in front for a fault fails. -/
theorem tallyStep_error {fault : Fault} (left : tally.remaining ≠ 0)
    (front : tally.front side price = .error fault) :
    tallyStep side price tally = .error fault := by
  rw [tallyStep, if_neg left, front]
  rfl

/-- An iteration removes a maker with nothing remaining, or fills a slice of it. -/
theorem tallyStep_some (left : tally.remaining ≠ 0)
    (front : tally.front side price = .ok (some (restingPrice, index, maker))) :
    tallyStep side price tally =
      (if maker.remaining = 0 then tally.removeMaker index
        else tally.fill side restingPrice index maker).map .next := by
  rw [tallyStep, if_neg left, front]
  by_cases spent : maker.remaining = 0
  · simp only [bind, Except.bind, if_pos spent]
    cases tally.removeMaker index with
    | error fault => rfl
    | ok removed => rfl
  · simp only [bind, Except.bind, if_neg spent]
    cases tally.fill side restingPrice index maker with
    | error fault => rfl
    | ok filled => rfl

/-- A tally of a sound engine. -/
def Tally.Sound (tally : Tally config) : Prop :=
  ∃ (engine : MatchingEngine config) (queues : Queues) (before : List FillEntry),
    engine.Sound queues ∧ tally = tallyOf before engine tally.remaining

/-- An iteration leaves a tally of a sound engine. -/
theorem Tally.Sound.step (sound : tally.Sound)
    (step : tallyStep side price tally = .ok (.next after)) : after.Sound := by
  obtain ⟨engine, queues, before, sound, same⟩ := sound
  rw [same] at step
  have followed := @matchStep_tally _ ⟨0, side, price, none⟩ ⟨engine, tally.remaining⟩ before rfl
  have step' : tallyStep side price (Sweep.tally before ⟨engine, tally.remaining⟩) =
      .ok (.next after) := step
  rw [step'] at followed
  cases swept : matchStep ⟨0, side, price, none⟩ (⟨engine, tally.remaining⟩ : Sweep config) with
  | error fault =>
    rw [swept] at followed
    cases followed
  | ok flow =>
    rw [swept] at followed
    cases flow with
    | done result => cases followed
    | next following =>
      obtain rfl : following.tally before = after := Flow.next.inj (Except.ok.inj followed)
      obtain ⟨queues', sound'⟩ := (matchStep_cases sound swept).sound sound
      exact ⟨following.engine, queues', before, sound', rfl⟩

/-- The maker in front of an engine is in front of its tallies. -/
theorem Front.in_tally {taker : Taker} (rep : Represents engine.book engine.arena queues)
    (front : Front taker engine queues restingPrice index maker) (book : tally.book = engine.book)
    (arena : tally.arena = engine.arena) :
    tally.front taker.side taker.price = .ok (some (restingPrice, index, maker)) := by
  have level : tally.opposingLevel taker.side restingPrice =
      .ok (engine.book.level taker.side.opposite restingPrice) := by
    rw [← front.level_ok rep]
    unfold Tally.opposingLevel
    rw [book]
    rfl
  have get : engine.arena.get index = .ok maker := Arena.get_ok.mpr front.found
  unfold Tally.front
  rw [book, front.best]
  simp only [front.acceptable, Bool.not_true, Bool.false_eq_true, if_false, level, bind, Except.bind,
    front.head rep, arena, get]
  rfl

/-- What a tally of a sound engine finds in front is the maker in front of the engine. -/
theorem front_of_tally (sound : engine.Sound queues) (book : tally.book = engine.book)
    (arena : tally.arena = engine.arena)
    (front : tally.front side price = .ok (some (restingPrice, index, maker))) :
    Front ⟨0, side, price, none⟩ engine queues restingPrice index maker := by
  let taker : Taker := ⟨0, side, price, none⟩
  obtain ⟨top, best, acceptable⟩ : ∃ top, tally.book.best side.opposite = some top ∧
      isPriceAcceptable side price top = true := by
    unfold Tally.front at front
    cases best : tally.book.best side.opposite with
    | none =>
      rw [best] at front
      cases front
    | some top =>
      rw [best] at front
      refine ⟨top, rfl, ?_⟩
      by_contra refused
      rw [Bool.not_eq_true] at refused
      simp only [refused, Bool.not_false, if_true] at front
      cases front
  rw [book] at best
  obtain ⟨index', maker', ahead⟩ := @exists_front _ taker queues top engine sound best acceptable
  have same := ahead.in_tally sound.rep book arena
  change tally.front side price = _ at same
  rw [front] at same
  cases same
  exact ahead

/-! ## An iteration of a taker with a second quantity on top -/

/-- A sum of two words that is none too large. -/
theorem add_ne_zero_of_ne {large small : UInt64} (fits : large.toNat + small.toNat < 2 ^ 64)
    (left : large ≠ 0) : large + small ≠ 0 := by
  intro zero
  have sum := congrArg UInt64.toNat zero
  rw [UInt64.toNat_add, Nat.mod_eq_of_lt fits, UInt64.toNat_zero] at sum
  exact left (UInt64.toNat_inj.mp (by rw [UInt64.toNat_zero]; omega))

/-- A fill of a whole slice is the same with a quantity on top. -/
theorem fill_more (fits : tally.remaining.toNat + qty.toNat < 2 ^ 64)
    (whole : maker.matchableQty ≤ tally.remaining) :
    (tally.more qty).fill side restingPrice index maker =
      (tally.fill side restingPrice index maker).map fun after => after.more qty := by
  have least : min tally.remaining maker.matchableQty = maker.matchableQty := min_of_le whole
  have least' : min (tally.remaining + qty) maker.matchableQty = maker.matchableQty := by
    refine min_of_le (UInt64.le_trans whole (UInt64.le_iff_toNat_le.mpr ?_))
    rw [UInt64.toNat_add, Nat.mod_eq_of_lt fits]
    exact Nat.le_add_right _ _
  unfold Tally.fill
  simp only [Tally.more_remaining, least, least']
  refine follows_second fun arena _ => follows_second fun filled _ => ?_
  rw [Tally.took_more]
  split
  · exact Tally.removeMaker_more
  · rfl

/-- A quantity that is filled in two parts by two takers is filled at once by one. -/
theorem took_parts {written arena : Arena} {part : UInt64}
    (fits : tally.remaining.toNat + part.toNat < 2 ^ 64) :
    ((tally.took side restingPrice maker tally.remaining written).given qty).took side restingPrice
        (maker.fill tally.remaining) part arena =
      (tally.more qty).took side restingPrice maker (tally.remaining + part) arena := by
  have left : tally.remaining + qty - (tally.remaining + part) = qty - part := by grind
  have level : ∀ total : UInt64, total - tally.remaining - part = total - (tally.remaining + part) :=
    fun total => by grind
  have sum : (tally.remaining + part).toNat = tally.remaining.toNat + part.toNat := by
    rw [UInt64.toNat_add, Nat.mod_eq_of_lt fits]
  unfold Tally.took
  simp only [Tally.given, Tally.more, OrderBook.level_setLevel, and_self, if_true,
    OrderBook.setLevel_setLevel, left, level, sum, Order.fill_id, mergeRuns_parted]

/-- The least of a sum and a word is the first summand and the least of the second one and the
rest of the word. -/
theorem min_add_eq {part large : UInt64} (fits : first.toNat + part.toNat < 2 ^ 64)
    (within : first ≤ large) : min (first + part) large = first + min part (large - first) := by
  have ordered := UInt64.le_iff_toNat_le.mp within
  have cap := large.toNat_lt
  apply UInt64.toNat_inj.mp
  rw [toNat_min, UInt64.toNat_add, UInt64.toNat_add, toNat_min, UInt64.toNat_sub_of_le _ _ within]
  omega

/-- A slice that a first taker fills in part is filled by a second one behind it as far as one taker
with both quantities fills it at once. -/
theorem fill_parts {written : Arena} (proper : maker.filled ≤ maker.quantity)
    (within : tally.remaining < maker.matchableQty)
    (fits : tally.remaining.toNat + qty.toNat < 2 ^ 64)
    (write : tally.arena.modify index (fun order =>
      { order with filled := order.filled + tally.remaining }) = .ok written) :
    ((tally.took side restingPrice maker tally.remaining written).given qty).fill side restingPrice
        index (maker.fill tally.remaining) =
      (tally.more qty).fill side restingPrice index maker := by
  have slice := Order.matchableQty_fill proper within
  have most : (min qty (maker.matchableQty - tally.remaining)).toNat ≤ qty.toNat :=
    UInt64.le_iff_toNat_le.mp Std.min_le_left
  have parts := min_add_eq fits (UInt64.le_of_lt within)
  have fitsPart : tally.remaining.toNat +
      (min qty (maker.matchableQty - tally.remaining)).toNat < 2 ^ 64 := by omega
  have changes : ∀ part, written.modify index (fun order =>
      { order with filled := order.filled + part }) = tally.arena.modify index fun order =>
        { order with filled := order.filled + (tally.remaining + part) } := by
    intro part
    rw [Arena.modify_modify write]
    simp only [UInt64.add_assoc]
  unfold Tally.fill
  simp only [Tally.given_remaining, Tally.more_remaining, slice, parts]
  change (written.modify index _ >>= _) = (tally.arena.modify index _ >>= _)
  rw [changes]
  refine bind_congr fun arena => bind_congr fun filled => ?_
  rw [took_parts fitsPart]

/-- A taker that ends within a slice, and a second one behind it: the iteration of the first leaves
the maker in front, and the iteration of the second then does what one does that brings both
quantities. -/
theorem tallyStep_parts (sound : tally.Sound) (positive : qty ≠ 0)
    (left : tally.remaining ≠ 0) (fits : tally.remaining.toNat + qty.toNat < 2 ^ 64)
    (front : tally.front side price = .ok (some (restingPrice, index, maker)))
    (within : tally.remaining < maker.matchableQty) :
    ∃ after, tallyStep side price tally = .ok (.next after) ∧ after.remaining = 0 ∧
      tallyStep side price (after.given qty) = tallyStep side price (tally.more qty) := by
  obtain ⟨engine, queues, before, sound, same⟩ := sound
  have book : tally.book = engine.book := by rw [same]; rfl
  have arena : tally.arena = engine.arena := by rw [same]; rfl
  have ahead := front_of_tally sound book arena front
  have proper := ahead.sound sound.rep
  have smaller : tally.remaining < maker.remaining :=
    UInt64.lt_of_lt_of_le within Order.matchableQty_le
  obtain ⟨live, -, still⟩ := fill_part proper smaller
  obtain ⟨written, write, seen, head, keeps⟩ := Arena.modify_ok (fun order => { order with
    filled := order.filled + tally.remaining }) ahead.found
  have taken := sound.rep.take ahead.found (UInt64.le_of_lt smaller) (keeps sound.rep.slots) seen head
  rw [ahead.onSide, ahead.atPrice] at taken
  have found : written.find index = some (maker.fill tally.remaining) := by
    rw [seen, if_pos rfl]
    rfl
  rw [← arena] at write
  let after := tally.took side restingPrice maker tally.remaining written
  have least : min tally.remaining maker.matchableQty = tally.remaining := by
    rw [Std.min_eq_if, if_pos (UInt64.le_of_lt within)]
  have filled : tally.fill side restingPrice index maker = .ok after := by
    unfold Tally.fill
    simp only [least, write, Arena.get_ok.mpr found, bind, Except.bind, if_neg still]
    rfl
  -- The maker is in front of the second taker, with the rest of its slice.
  have again : (after.given qty).front side price =
      .ok (some (restingPrice, index, maker.fill tally.remaining)) := by
    have front' : Front ⟨0, side, price, none⟩ (engine.withBook after.book written) queues
        restingPrice index (maker.fill tally.remaining) := {
      best := by
        rw [withBook_book, ← ahead.best, ← book]
        exact OrderBook.best_setLevel
      acceptable := ahead.acceptable
      first := ahead.first
      found := found
      onSide := ahead.onSide
      atPrice := ahead.atPrice }
    refine front'.in_tally ?_ rfl rfl
    change Represents (tally.book.setLevel _ _ _) written queues
    rw [book]
    exact taken.represents
  refine ⟨after, ?_, ?_, ?_⟩
  · rw [tallyStep_some left front, if_neg live, filled]
    rfl
  · change tally.remaining - tally.remaining = 0
    grind
  · have onTop : (tally.more qty).front side price = .ok (some (restingPrice, index, maker)) := front
    have enough : (tally.more qty).remaining ≠ 0 := add_ne_zero_of_ne fits left
    rw [tallyStep_some positive again, if_neg still, tallyStep_some enough onTop, if_neg live]
    exact congrArg (Except.map Flow.next) (fill_parts proper within fits write)

/-- Removing a maker leaves the taker its quantity. -/
theorem Tally.removeMaker_remaining (removed : tally.removeMaker index = .ok after) :
    after.remaining = tally.remaining := by
  unfold Tally.removeMaker at removed
  cases removal : tally.book.removeOrder tally.arena index with
  | error fault =>
    rw [removal] at removed
    cases removed
  | ok result =>
    rw [removal] at removed
    obtain rfl := Except.ok.inj removed
    rfl

/-- A fill lowers the taker's quantity. -/
theorem Tally.fill_remaining (filled : tally.fill side restingPrice index maker = .ok after) :
    after.remaining ≤ tally.remaining := by
  have lowers : tally.remaining - min tally.remaining maker.matchableQty ≤ tally.remaining :=
    UInt64.sub_le Std.min_le_left
  unfold Tally.fill at filled
  obtain ⟨arena, -, filled⟩ := bind_ok filled
  obtain ⟨order, -, filled⟩ := bind_ok filled
  split at filled
  · rw [Tally.removeMaker_remaining filled]
    exact lowers
  · obtain rfl := Except.ok.inj filled
    exact lowers

/-- How an iteration of a taker compares with that of one with a quantity on top. -/
inductive Parting (side : Side) (price : UInt64) (qty : UInt64) (tally : Tally config) : Prop
  /-- The taker is filled. -/
  | spent (nothing : tally.remaining = 0)
  /-- No maker is in front of any taker. -/
  | unmatched (left : tally.remaining ≠ 0) (ends : ∀ other, other ≠ 0 →
      tallyStep side price (tally.given other) = .ok (.done (tally.given other)))
  /-- The taker ends within a slice, which a second taker goes on with. -/
  | parts {after : Tally config} (step : tallyStep side price tally = .ok (.next after))
      (nothing : after.remaining = 0)
      (onwards : tallyStep side price (after.given qty) = tallyStep side price (tally.more qty))
  /-- Both iterations fail. -/
  | fails (fault : Fault) (stops : tallyStep side price tally = .error fault)
      (stops' : tallyStep side price (tally.more qty) = .error fault)
  /-- The iterations do the same, with the quantity on top. -/
  | goesOn {after : Tally config} (step : tallyStep side price tally = .ok (.next after))
      (lowers : after.remaining ≤ tally.remaining)
      (step' : tallyStep side price (tally.more qty) = .ok (.next (after.more qty)))

/-- An iteration compares in one of these ways. -/
theorem parting (sound : tally.Sound) (positive : qty ≠ 0)
    (fits : tally.remaining.toNat + qty.toNat < 2 ^ 64) : Parting side price qty tally := by
  by_cases left : tally.remaining = 0
  · exact .spent left
  have enough : (tally.more qty).remaining ≠ 0 := add_ne_zero_of_ne fits left
  cases front : tally.front side price with
  | error fault => exact .fails fault (tallyStep_error left front) (tallyStep_error enough front)
  | ok found =>
    cases found with
    | none => exact .unmatched left fun other some => tallyStep_none some front
    | some ahead =>
      obtain ⟨restingPrice, index, maker⟩ := ahead
      have step := tallyStep_some left front
      have onTop : (tally.more qty).front side price = .ok (some (restingPrice, index, maker)) :=
        front
      have step' := tallyStep_some enough onTop
      by_cases spent : maker.remaining = 0
      · rw [if_pos spent] at step step'
        rw [Tally.removeMaker_more] at step'
        cases removed : tally.removeMaker index with
        | error fault =>
          rw [removed] at step step'
          exact .fails fault step step'
        | ok after =>
          rw [removed] at step step'
          exact .goesOn step (UInt64.le_of_eq (Tally.removeMaker_remaining removed)) step'
      · rw [if_neg spent] at step step'
        by_cases whole : maker.matchableQty ≤ tally.remaining
        · rw [fill_more fits whole] at step'
          cases filled : tally.fill side restingPrice index maker with
          | error fault =>
            rw [filled] at step step'
            exact .fails fault step step'
          | ok after =>
            rw [filled] at step step'
            exact .goesOn step (Tally.fill_remaining filled) step'
        · obtain ⟨after, step, nothing, onwards⟩ :=
            tallyStep_parts sound positive left fits front (UInt64.not_le.mp whole)
          exact .parts step nothing onwards

/-! ## The whole run -/

/-- What a second taker ends with behind a first one that ended so. -/
inductive Continues (side : Side) (price qty : UInt64) :
    Except Fault (Tally config) → Except Fault (Tally config) → Prop
  /-- The first one fails. -/
  | failed {fault : Fault} : Continues side price qty (.error fault) (.error fault)
  /-- The second one starts where the first one ended. -/
  | ended {after : Tally config} {outcome : Except Fault (Tally config)}
    (onwards : LoopEnds (tallyStep side price) (after.given qty) outcome) :
    Continues side price qty (.ok after) outcome

/-- One taker with both quantities ends as two takers do one behind the other, but for what is left
of its quantity. -/
theorem ends_parted {outcome outcome' : Except Fault (Tally config)} (sound : tally.Sound)
    (positive : qty ≠ 0) (fits : tally.remaining.toNat + qty.toNat < 2 ^ 64)
    (first : LoopEnds (tallyStep side price) tally outcome)
    (second : Continues side price qty outcome outcome') :
    ∃ whole, LoopEnds (tallyStep side price) (tally.more qty) whole ∧
      whole.map (fun after => after.given 0) = outcome'.map fun after => after.given 0 := by
  induction first with
  | @fails tally fault stops =>
    cases second
    cases parting sound positive fits with
    | spent nothing => cases stops.symm.trans (tallyStep_filled nothing)
    | unmatched left ends => cases stops.symm.trans (ends _ left)
    | parts step => cases stops.symm.trans step
    | fails other stops' failed =>
      cases stops.symm.trans stops'
      exact ⟨.error fault, .fails failed, rfl⟩
    | goesOn step => cases stops.symm.trans step
  | @exits tally after leaves =>
    obtain - | onwards := second
    cases parting sound positive fits with
    | spent nothing =>
      cases leaves.symm.trans (tallyStep_filled nothing)
      have same : tally.more qty = tally.given qty := by rw [Tally.more, nothing, UInt64.zero_add]
      exact ⟨outcome', same ▸ onwards, rfl⟩
    | unmatched left ends =>
      cases leaves.symm.trans (ends _ left)
      obtain rfl := onwards.unique (.exits (ends qty positive))
      exact ⟨.ok (tally.more qty), .exits (ends _ (add_ne_zero_of_ne fits left)), rfl⟩
    | parts step => cases leaves.symm.trans step
    | fails fault stops => cases leaves.symm.trans stops
    | goesOn step => cases leaves.symm.trans step
  | @goes tally following outcome step onwards ih =>
    cases parting sound positive fits with
    | spent nothing => cases step.symm.trans (tallyStep_filled nothing)
    | unmatched left ends => cases step.symm.trans (ends _ left)
    | fails fault stops => cases step.symm.trans stops
    | parts step' nothing goesOn =>
      -- The first taker ends here, and the second one goes on with the slice.
      cases step.symm.trans step'
      obtain rfl := onwards.unique (.exits (tallyStep_filled nothing))
      obtain - | further := second
      exact ⟨outcome', further.congr goesOn.symm, rfl⟩
    | goesOn step' lowers onTop =>
      cases step.symm.trans step'
      have fewer := UInt64.le_iff_toNat_le.mp lowers
      obtain ⟨whole, ends, same⟩ := ih (sound.step step) (by omega) second
      exact ⟨whole, .goes onTop ends, same⟩

/-! ## Immediate-or-cancel orders -/

/-- A limit order, immediate or cancel, without a self-trade group. -/
structure IocLimit (order : NewOrder) : Prop where
  /-- It is a limit order. -/
  limit : order.orderType = .limit
  /-- Its remainder is cancelled. -/
  ioc : order.timeInForce = .ioc
  /-- It has no self-trade group. -/
  ungrouped : order.stpGroup = none

/-- A call behind another one starts with the totals that the other one left. -/
theorem tallyOf_cleared {left : UInt64} :
    tallyOf (fillEntries engine.bodies) engine.clearEvents qty =
      (tallyOf [] engine left).given qty := by
  have totals : fillEntries engine.bodies ++ fillEntries engine.clearEvents.bodies =
      [] ++ fillEntries engine.bodies := List.append_nil _
  rw [tallyOf, totals]
  rfl

/-- What becomes of a call for such an order, by what becomes of the sweep for it. -/
inductive IocCall (engine : MatchingEngine config) :
    Except Fault (SweepResult config) → Except Fault (MatchingEngine config) → Prop
  /-- The call fails as the sweep does. -/
  | failed {fault : Fault} : IocCall engine (.error fault) (.error fault)
  /-- The call leaves what the sweep leaves, no stops, and no order under an unused id. -/
  | swept {result : SweepResult config} {engine' : MatchingEngine config}
    (tally : ∀ before, tallyOf before engine' result.remaining = result.tally before)
    (bids : engine'.stopBids = []) (asks : engine'.stopAsks = [])
    (sound : ∃ queues, engine'.Sound queues)
    (unused : ∀ id, engine.book.lookup id = none → engine'.book.lookup id = none) :
    IocCall engine (.ok result) (.ok engine')

variable {order : NewOrder} {instrumentId : UInt32}

/-- What a call leaves is what the sweep for its order leaves, but for the taker. -/
theorem IocCall.leaves {swept : Except Fault (SweepResult config)}
    {called : Except Fault (MatchingEngine config)} (call : IocCall engine swept called)
    (before : List FillEntry) : (called.map fun after => tallyOf before after 0) =
      (swept.map (SweepResult.tally before)).map fun tally => tally.given 0 := by
  cases call with
  | failed => rfl
  | swept tally =>
    exact congrArg (fun tally : Tally config => Except.ok (tally.given 0)) (tally before)

/-- An order that is accepted leaves the tally. -/
theorem tallyOf_accept {before : List FillEntry} :
    tallyOf before (engine.accept order) qty = tallyOf before engine qty := by
  have silent : fillEntries [EventBody.orderAccepted order.id order.side order.price order.qty
    order.orderType] = [] := rfl
  simp only [tallyOf, accept, emit_bodies, fillEntries_append, silent, List.append_nil]
  rfl

/-- The report of a cancelled remainder leaves the tally. -/
theorem tallyOf_cancelled {before : List FillEntry} {id : OrderId} {left : UInt64} :
    tallyOf before (engine.emit (.orderCancelled id left)) qty = tallyOf before engine qty := by
  have silent : fillEntries [EventBody.orderCancelled id left] = [] := rfl
  simp only [tallyOf, emit_bodies, fillEntries_append, silent, List.append_nil]
  rfl

/-- Such an order with a quantity and a fresh id is not refused. -/
theorem refusal_ioc (kind : IocLimit order) (positive : order.qty ≠ 0)
    (fresh : engine.book.lookup order.id = none) : engine.clearEvents.refusal order = .ok none := by
  unfold refusal
  simp [positive, fresh, kind.ioc, kind.ungrouped, pure, Except.pure]

/-- A call for such an order sweeps, settles what is left and drains the stops. -/
theorem processUnbounded_ioc (kind : IocLimit order) (positive : order.qty ≠ 0)
    (fresh : engine.book.lookup order.id = none) :
    engine.processUnbounded (.newOrder instrumentId order) =
      (((engine.clearEvents.accept order).matchAgainstBook (takerOf order) order.qty >>=
        fun result => settleRemainder result order) >>= drainStopTriggers) := by
  have matched : order.Matched := by simp [NewOrder.Matched, kind.limit]
  change (engine.clearEvents.processNewOrder order >>= drainStopTriggers) = _
  rw [processNewOrder_matched matched, refusal_ioc kind positive fresh]
  rfl

/-- Settling the remainder of an order that keeps none leaves the tally. -/
theorem Settled.tally_eq {result : SweepResult config} {after : MatchingEngine config}
    (settled : Settled result queues order after) (drops : ¬order.Keeps)
    (before : List FillEntry) : tallyOf before after result.remaining = result.tally before := by
  cases settled with
  | prevented => exact tallyOf_cancelled
  | filled => rfl
  | rested _ _ keeps => exact absurd keeps drops
  | dropped => exact tallyOf_cancelled

/-- A call for such an order with a fresh id, without pending stops, is a sweep. -/
theorem process_ioc (sound : engine.Sound queues) (bids : engine.stopBids = [])
    (asks : engine.stopAsks = []) (kind : IocLimit order) (positive : order.qty ≠ 0)
    (fresh : engine.book.lookup order.id = none) :
    ∃ swept, IocCall engine swept (engine.processUnbounded (.newOrder instrumentId order)) ∧
      ∀ before, LoopEnds (tallyStep order.side (effectivePrice order))
        (tallyOf before engine.clearEvents order.qty) (swept.map (SweepResult.tally before)) := by
  have clear : engine.clearEvents.Sound queues := sound.congr rfl rfl
  have matched : order.Matched := by simp [NewOrder.Matched, kind.limit]
  have drops : ¬order.Keeps := by simp [NewOrder.Keeps, kind.ioc]
  have ends : ∀ before, LoopEnds (tallyStep order.side (effectivePrice order))
      (tallyOf before engine.clearEvents order.qty)
      (((engine.clearEvents.accept order).matchAgainstBook (takerOf order) order.qty).map
        (SweepResult.tally before)) := by
    intro before
    rw [← @tallyOf_accept _ _ engine.clearEvents order before]
    exact @matchAgainstBook_ends _ (takerOf order) _ before _ order.qty (clear.accept order)
      kind.ungrouped
  refine ⟨_, ?_, ends⟩
  rw [processUnbounded_ioc kind positive fresh]
  cases swept : (engine.clearEvents.accept order).matchAgainstBook (takerOf order) order.qty with
  | error fault => exact .failed
  | ok result =>
    obtain ⟨queues', sound'⟩ := matchAgainstBook_sound (clear.accept order) swept
    obtain ⟨after, settles⟩ := @settleRemainder_ok _ _ order result sound'
    have settled := settleRemainder_cases sound' matched settles
    have handled : Handled engine.clearEvents queues order after :=
      .matched matched (refusal_ioc kind positive fresh) swept sound' settled
    obtain ⟨bids', asks'⟩ := handled.stops_eq clear matched.2
    have shrinks := matchAgainstBook_shrinks (clear.accept order) swept
    have idle := drainStopTriggers_idle (bids'.trans bids) (asks'.trans asks)
    have tally := settled.tally_eq drops
    have book : after.book = result.engine.book := congrArg Tally.book (tally [])
    have arena : after.arena = result.engine.arena := congrArg Tally.arena (tally [])
    change IocCall engine (.ok result) (settleRemainder result order >>= drainStopTriggers)
    rw [settles]
    change IocCall engine (.ok result) after.drainStopTriggers
    rw [idle]
    refine .swept tally (bids'.trans bids) (asks'.trans asks) ⟨queues', sound'.congr book arena⟩ ?_
    intro id unused
    rw [book]
    exact lookup_none_of_shrinks (clear.accept order) sound' shrinks unused

/-- What a call leaves: the book, the arena, the last trade price, and the totals of the fills that
are reported behind earlier ones. -/
def residue (before : List EventBody) (after : MatchingEngine config) :
    OrderBook config.maxTicks × Arena × Option UInt64 × List FillEntry :=
  (after.book, after.arena, after.lastTradePrice, fillTotals (before ++ after.bodies))

/-- Calls whose tallies agree leave the same. -/
theorem residue_congr {before before' : List EventBody}
    {called called' : Except Fault (MatchingEngine config)}
    (same : (called.map fun after => tallyOf (fillEntries before) after 0) =
      called'.map fun after => tallyOf (fillEntries before') after 0) :
    (called.map (residue before)) = called'.map (residue before') := by
  cases called with
  | error fault =>
    cases called' with
    | error fault' => exact congrArg Except.error (Except.error.inj same)
    | ok after' => cases same
  | ok after =>
    cases called' with
    | error fault => cases same
    | ok after' =>
      have tallies := Except.ok.inj same
      have book : after.book = after'.book := congrArg Tally.book tallies
      have arena : after.arena = after'.arena := congrArg Tally.arena tallies
      have last : after.lastTradePrice = after'.lastTradePrice :=
        congrArg Tally.lastTradePrice tallies
      have totals : mergeRuns (fillEntries before ++ fillEntries after.bodies) =
          mergeRuns (fillEntries before' ++ fillEntries after'.bodies) :=
        congrArg Tally.totals tallies
      rw [← fillEntries_append, ← fillEntries_append] at totals
      simp only [Except.map, residue, book, arena, last, fillTotals, totals]

/-- What two calls leave is what one leaves that submits both quantities: the same book, the same
arena, the same last trade price, and the same totals of fills in the same order; and where a call
fails on one side, it fails in the same way on the other. -/
theorem process_parted {whole first second : OrderId} {a b : UInt64} (reachable : Reachable engine)
    (bids : engine.stopBids = []) (asks : engine.stopAsks = []) (kind : IocLimit order)
    (positive : a ≠ 0) (positive' : b ≠ 0) (fits : a.toNat + b.toNat < 2 ^ 64)
    (fresh : ∀ id ∈ [whole, first, second], engine.book.lookup id = none) :
    (engine.processUnbounded (.newOrder instrumentId { order with id := whole, qty := a + b })).map
        (residue []) =
      engine.processUnbounded (.newOrder instrumentId { order with id := first, qty := a }) >>=
        fun between =>
          (between.processUnbounded
            (.newOrder instrumentId { order with id := second, qty := b })).map
              (residue between.bodies) := by
  obtain ⟨queues, sound⟩ := reachable.sound
  have clear : engine.clearEvents.Sound queues := sound.congr rfl rfl
  have kinds : ∀ id qty, IocLimit { order with id, qty } := fun id qty =>
    ⟨kind.limit, kind.ioc, kind.ungrouped⟩
  have begun : (tallyOf [] engine.clearEvents a).Sound := ⟨engine.clearEvents, queues, [], clear, rfl⟩
  obtain ⟨wholeSwept, wholeCall, wholeEnds⟩ := @process_ioc _ _ _
    { order with id := whole, qty := a + b } instrumentId sound bids asks (kinds _ _)
    (add_ne_zero_of_ne fits positive) (fresh whole (by simp))
  obtain ⟨firstSwept, firstCall, firstEnds⟩ := @process_ioc _ _ _
    { order with id := first, qty := a } instrumentId sound bids asks (kinds _ _) positive
    (fresh first (by simp))
  have wholeEnds := wholeEnds []
  have firstEnds := firstEnds []
  have wholeLeaves := wholeCall.leaves []
  generalize engine.processUnbounded (.newOrder instrumentId { order with id := whole, qty := a + b })
    = wholeCalled at wholeLeaves ⊢
  generalize engine.processUnbounded (.newOrder instrumentId { order with id := first, qty := a })
    = firstCalled at firstCall ⊢
  cases firstCall with
  | @failed fault =>
    obtain ⟨outcome, ends, same⟩ := ends_parted begun positive' fits firstEnds .failed
    rw [wholeEnds.unique ends, same] at wholeLeaves
    cases wholeCalled with
    | error other => exact congrArg Except.error (Except.error.inj wholeLeaves)
    | ok after => cases wholeLeaves
  | @swept result between tally bids' asks' sound' unused =>
    obtain ⟨queues', sound'⟩ := sound'
    obtain ⟨secondSwept, secondCall, secondEnds⟩ := @process_ioc _ _ _
      { order with id := second, qty := b } instrumentId sound' bids' asks' (kinds _ _) positive'
      (unused _ (fresh second (by simp)))
    have secondEnds := secondEnds (fillEntries between.bodies)
    rw [tallyOf_cleared, tally []] at secondEnds
    obtain ⟨outcome, ends, same⟩ := ends_parted begun positive' fits firstEnds (.ended secondEnds)
    have secondLeaves := secondCall.leaves (fillEntries between.bodies)
    rw [wholeEnds.unique ends, same, ← secondLeaves] at wholeLeaves
    exact residue_congr wholeLeaves

/-- A taker that is parted within a slice of an iceberg. -/
theorem process_parted_iceberg :
    ∃ engine : MatchingEngine (smallConfig .cancelOldest), Reachable engine ∧
      (engine.arena.orders.map Order.orderType == [.iceberg, .limit]) = true ∧
      (engine.processUnbounded (.newOrder 1 ⟨7, .bid, 3, 3 + 4, .limit, .ioc, none, none, none⟩)).map
          (residue []) =
        engine.processUnbounded (.newOrder 1 ⟨8, .bid, 3, 3, .limit, .ioc, none, none, none⟩) >>=
          fun between =>
            (between.processUnbounded
              (.newOrder 1 ⟨9, .bid, 3, 4, .limit, .ioc, none, none, none⟩)).map
                (residue between.bodies) := by
  obtain ⟨engine, reachable, shown⟩ := Reachable.exists_run
    (fun engine : MatchingEngine (smallConfig .cancelOldest) =>
      engine.arena.orders.map Order.orderType == [.iceberg, .limit] &&
        engine.stopBids.isEmpty && engine.stopAsks.isEmpty &&
        [7, 8, 9].all fun id => engine.book.lookup id == none) 8
    [.submit { NewOrder.gtc 1 .ask 3 5 with orderType := .iceberg, visibleQty := some 2 },
      .submit (.gtc 2 .ask 3 4)]
    (by decide +kernel)
  simp only [Bool.and_eq_true, List.isEmpty_iff, List.all_eq_true, beq_iff_eq] at shown
  obtain ⟨⟨⟨types, bids⟩, asks⟩, fresh⟩ := shown
  refine ⟨engine, reachable, by rw [types]; rfl, ?_⟩
  exact @process_parted _ engine ⟨0, .bid, 3, 0, .limit, .ioc, none, none, none⟩ 1 7 8 9 3 4 reachable
    bids asks ⟨rfl, rfl, rfl⟩ (by decide) (by decide) (by decide) fresh

end MatchingEngine

end MatchX
