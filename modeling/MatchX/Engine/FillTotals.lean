import MatchX.Engine.Makers
import MatchX.Support.Merging

/-!
# The totals of a sweep's fills

A sweep reports the fills of an iceberg slice by slice. `fillTotals` merges the fills of one maker
at one price that are reported in a row. The totals of a sweep that meets only live makers outside
the taker's group are those of `walkMakers`, which goes along the makers ahead once and takes from
each what it has, whatever its slices.
-/

namespace MatchX

open MatchX.Support

namespace MatchingEngine

variable {config : InstrumentConfig} {engine : MatchingEngine config} {queues : Queues}
  {taker : Taker} {sweep following : Sweep config} {makers makers' : List Order}
  {remaining remaining' : UInt64}

/-- The maker and the price of a fill, and its quantity. -/
abbrev FillEntry := (OrderId × UInt64) × Nat

/-- The fill that a report tells of. -/
def fillEntry : EventBody → Option FillEntry
  | .fill makerId _ price qty _ _ => some ((makerId, price), qty.toNat)
  | _ => none

/-- The fills that reports tell of, in order. -/
def fillEntries (bodies : List EventBody) : List FillEntry := bodies.filterMap fillEntry

/-- The fills that reports tell of, those of one maker at one price in a row merged. -/
def fillTotals (bodies : List EventBody) : List FillEntry := mergeRuns (fillEntries bodies)

/-- The fills of reports in a row. -/
@[simp] theorem fillEntries_append {early late : List EventBody} :
    fillEntries (early ++ late) = fillEntries early ++ fillEntries late := List.filterMap_append

/-- What an iteration that the sweep goes on after makes of the makers ahead and the taker's
remaining quantity, with the fills that it reports. -/
inductive Deal (taker : Taker) :
    List Order → UInt64 → List Order → UInt64 → List FillEntry → Prop
  /-- A maker is passed without a fill. -/
  | passed {maker rest remaining} (skipped : maker.remaining = 0 ∨ sameGroup taker maker = true) :
    Deal taker (maker :: rest) remaining rest remaining []
  /-- A maker is filled in part. -/
  | part {maker rest remaining} (left : remaining ≠ 0)
      (part : min remaining maker.matchableQty < maker.remaining) :
    Deal taker (maker :: rest) remaining (maker.fill (min remaining maker.matchableQty) :: rest)
      (remaining - min remaining maker.matchableQty)
      [((maker.id, maker.price), (min remaining maker.matchableQty).toNat)]
  /-- A maker is filled and removed. -/
  | whole {maker rest remaining} (left : remaining ≠ 0)
      (whole : min remaining maker.matchableQty = maker.remaining) :
    Deal taker (maker :: rest) remaining rest (remaining - maker.remaining)
      [((maker.id, maker.price), maker.remaining.toNat)]

/-- An iteration that the sweep goes on after deals with the maker in front. -/
theorem Iteration.deal (sound : sweep.engine.Sound queues)
    (iteration : Iteration taker queues sweep (.next following)) :
    ∃ news, following.engine.bodies = sweep.engine.bodies ++ news ∧
      Deal taker (makersFor taker sweep.engine) sweep.remaining
        (makersFor taker following.engine) following.remaining (fillEntries news) := by
  cases iteration with
  | stale left front spent removed =>
    rw [front.removed sound.rep removed]
    exact ⟨[], by simp, .passed (.inl spent)⟩
  | oldest left front live group cancels removed =>
    rw [front.removed sound.rep removed]
    refine ⟨_, by simp; rfl, ?_⟩
    exact .passed (.inr group)
  | @fillPart price index maker book arena left front apart part taken =>
    obtain ⟨rest, ahead, ahead'⟩ := front.lowered sound.rep taken
    have deal : Deal taker (maker.unlinked :: rest) sweep.remaining
        (maker.unlinked.fill (min sweep.remaining maker.matchableQty) :: rest)
        (sweep.remaining - min sweep.remaining maker.matchableQty)
        [((maker.id, maker.price), (min sweep.remaining maker.matchableQty).toNat)] :=
      .part left part
    rw [← ahead, ← ahead', front.atPrice] at deal
    refine ⟨_, by simp; rfl, ?_⟩
    exact deal
  | @fillAll price index maker book arena book' arena' left front live apart whole taken _ removed =>
    have deal : ∀ rest, Deal taker (maker.unlinked :: rest) sweep.remaining rest
        (sweep.remaining - maker.remaining)
        [((maker.id, maker.price), maker.remaining.toNat)] := fun rest => .whole left whole
    rw [front.atPrice] at deal
    rw [front.finished sound.rep taken removed]
    refine ⟨_, by simp; rfl, ?_⟩
    exact deal _

/-! ## Going along the makers once -/

/-- Each maker in turn is filled for what it has remaining, as long as the taker lasts: the fills,
and what is left of the taker's quantity. -/
def walkMakers : List Order → UInt64 → List FillEntry × UInt64
  | [], remaining => ([], remaining)
  | maker :: rest, remaining =>
    if remaining = 0 then ([], remaining)
    else
      let qty := min remaining maker.remaining
      let (fills, left) := walkMakers rest (remaining - qty)
      (((maker.id, maker.price), qty.toNat) :: fills, left)

/-- A taker that is filled goes nowhere. -/
@[simp] theorem walkMakers_filled : walkMakers makers 0 = ([], 0) := by
  cases makers <;> rfl

/-- A walk fills makers of the list only. -/
theorem walkMakers_ids :
    ∀ entry ∈ (walkMakers makers remaining).1, ∃ maker ∈ makers, entry.1.1 = maker.id := by
  fun_induction walkMakers makers remaining with
  | case1 => simp
  | case2 => simp
  | case3 maker rest remaining left qty fills after walked ih =>
    rintro entry member
    rcases List.mem_cons.mp member with rfl | behind
    · exact ⟨maker, List.mem_cons_self, rfl⟩
    · obtain ⟨other, listed, same⟩ := ih entry (by rw [walked]; exact behind)
      exact ⟨other, List.mem_cons_of_mem _ listed, same⟩

/-- The makers can be walked: all are live, none is of the taker's group, and none is listed
twice. -/
structure Walkable (taker : Taker) (makers : List Order) : Prop where
  /-- Something remains of each maker. -/
  live : ∀ maker ∈ makers, maker.remaining ≠ 0
  /-- No maker is of the taker's group. -/
  apart : ∀ maker ∈ makers, sameGroup taker maker = false
  /-- No maker is overfilled. -/
  sound : ∀ maker ∈ makers, maker.filled ≤ maker.quantity
  /-- The ids are distinct. -/
  distinct : (makers.map Order.id).Nodup

/-- A deal leaves makers that can be walked. -/
theorem Deal.walkable {fills : List FillEntry} (walkable : Walkable taker makers)
    (deal : Deal taker makers remaining makers' remaining' fills) : Walkable taker makers' := by
  obtain ⟨live, apart, sound, distinct⟩ := walkable
  have behind : ∀ {maker : Order} {rest : List Order}, makers = maker :: rest →
      Walkable taker rest := by
    rintro maker rest rfl
    exact ⟨fun other member => live other (List.mem_cons_of_mem _ member),
      fun other member => apart other (List.mem_cons_of_mem _ member),
      fun other member => sound other (List.mem_cons_of_mem _ member),
      (List.nodup_cons.mp distinct).2⟩
  cases deal with
  | passed skipped => exact behind rfl
  | whole left whole => exact behind rfl
  | @part maker rest _ left part =>
    have rest' := behind rfl
    have proper := sound maker List.mem_cons_self
    obtain ⟨-, -, still⟩ := fill_part proper part
    refine ⟨?_, ?_, ?_, distinct⟩
    · exact List.forall_mem_cons.mpr ⟨still, rest'.live⟩
    · exact List.forall_mem_cons.mpr ⟨apart maker List.mem_cons_self, rest'.apart⟩
    · exact List.forall_mem_cons.mpr ⟨(Order.fill_sound proper (UInt64.le_of_lt part)).1, rest'.sound⟩

/-- What is taken from two words in two parts is what is taken at once. -/
theorem min_sub_sub {large small part : UInt64} (within : part ≤ large) (within' : part ≤ small) :
    part.toNat + (min (large - part) (small - part)).toNat = (min large small).toNat ∧
      large - part - min (large - part) (small - part) = large - min large small := by
  have sum : part.toNat + (min (large - part) (small - part)).toNat =
      (min large small).toNat := by
    have below := UInt64.le_iff_toNat_le.mp within
    have below' := UInt64.le_iff_toNat_le.mp within'
    rw [toNat_min, toNat_min, UInt64.toNat_sub_of_le _ _ within, UInt64.toNat_sub_of_le _ _ within']
    omega
  refine ⟨sum, UInt64.toNat_inj.mp ?_⟩
  rw [UInt64.toNat_sub_of_le _ _ Std.min_le_left, UInt64.toNat_sub_of_le _ _ within,
    UInt64.toNat_sub_of_le _ _ Std.min_le_left]
  omega

/-- The fills of a deal, pushed in front of those of the walk after it, are those of the walk
before it, and both walks leave the taker the same. -/
theorem Deal.walk {fills : List FillEntry} (walkable : Walkable taker makers)
    (deal : Deal taker makers remaining makers' remaining' fills) :
    fills.foldr pushEntry (walkMakers makers' remaining').1 = (walkMakers makers remaining).1 ∧
      (walkMakers makers' remaining').2 = (walkMakers makers remaining).2 := by
  cases deal with
  | @passed maker rest _ skipped =>
    rcases skipped with spent | group
    · exact absurd spent (walkable.live maker List.mem_cons_self)
    · exact absurd group (by rw [walkable.apart maker List.mem_cons_self]; exact Bool.noConfusion)
  | @part maker rest _ left part =>
    have bound := UInt64.le_of_lt part
    have within : min remaining maker.matchableQty ≤ remaining := Std.min_le_left
    have less : (maker.fill (min remaining maker.matchableQty)).remaining =
        maker.remaining - min remaining maker.matchableQty :=
      (Order.fill_sound (walkable.sound maker List.mem_cons_self) bound).2
    have parts := min_sub_sub within bound
    by_cases spent : remaining - min remaining maker.matchableQty = 0
    · -- The taker ends within the maker.
      have same := (sub_eq_zero_of_le within).mp spent
      have least : min remaining maker.remaining = remaining := by
        rw [Std.min_eq_if, if_pos (same ▸ bound)]
      simp [walkMakers, same, left, least, pushEntry]
    · simp only [walkMakers, if_neg left, if_neg spent, less, parts.2, Order.fill_id,
        Order.fill_price, List.foldr_cons, List.foldr_nil, and_true]
      rw [← parts.1]
      simp [pushEntry]
  | @whole maker _ _ left whole =>
    have within : maker.remaining ≤ remaining := whole ▸ Std.min_le_left
    have fresh : ∀ entry ∈ (walkMakers makers' (remaining - maker.remaining)).1,
        entry.1 ≠ (maker.id, maker.price) := by
      intro entry member same
      obtain ⟨other, listed, id⟩ := walkMakers_ids entry member
      rw [same] at id
      have again : maker.id ∈ makers'.map Order.id := List.mem_map.mpr ⟨other, listed, id.symm⟩
      exact (List.nodup_cons.mp walkable.distinct).1 again
    simp only [walkMakers, if_neg left, min_of_le within, List.foldr_cons, List.foldr_nil,
      pushEntry_fresh fresh, and_true]

/-- The maker in front of makers that can be walked is not of the taker's group. -/
theorem Walkable.front_apart {price : UInt64} {index : ArenaIndex} {maker : Order}
    (sound : sweep.engine.Sound queues) (walkable : Walkable taker (makersFor taker sweep.engine))
    (front : Front taker sweep.engine queues price index maker) :
    sameGroup taker maker = false := by
  obtain ⟨rest, ahead⟩ := front.makersFor sound.rep
  exact walkable.apart maker.unlinked (ahead ▸ List.mem_cons_self)

/-- The last iteration over makers that can be walked ends the walk too, with no report. -/
theorem Iteration.walked {result : SweepResult config} (sound : sweep.engine.Sound queues)
    (walkable : Walkable taker (makersFor taker sweep.engine))
    (iteration : Iteration taker queues sweep (.done result)) :
    result.engine.bodies = sweep.engine.bodies ∧
      ([], result.remaining) = walkMakers (makersFor taker sweep.engine) sweep.remaining := by
  have apart {price index maker} (front : Front taker sweep.engine queues price index maker) :
      sameGroup taker maker = false := walkable.front_apart sound front
  cases iteration with
  | exhausted nothing =>
    rw [nothing, walkMakers_filled]
    exact ⟨rfl, rfl⟩
  | unmatched left refused =>
    rw [makersFor_nil refused]
    exact ⟨rfl, rfl⟩
  | newest _ front _ group => simp [apart front] at group
  | both _ front _ group => simp [apart front] at group
  | decrementAll _ front _ group => simp [apart front] at group
  | decrementPart _ front group => simp [apart front] at group

/-- What a sweep is before each of its iterations, when its makers can be walked. -/
def WalksFrom (taker : Taker) (sweep : Sweep config) : Prop :=
  (∃ queues, sweep.engine.Sound queues) ∧ Walkable taker (makersFor taker sweep.engine)

/-- An iteration leaves makers that can be walked. -/
theorem walks_on (ready : WalksFrom taker sweep)
    (step : matchStep taker sweep = .ok (.next following)) : WalksFrom taker following := by
  obtain ⟨⟨queues, sound⟩, walkable⟩ := ready
  have iteration := matchStep_cases sound step
  obtain ⟨news, -, deal⟩ := iteration.deal sound
  exact ⟨iteration.sound sound, deal.walkable walkable⟩

end MatchingEngine

end MatchX
