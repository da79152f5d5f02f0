import Mathlib.Data.UInt
import MatchX.Book.DepthWords
import MatchX.Engine.BookAssertions

/-!
# Calls in which no sum of quantities overflows

No check bounds the quantities that come in, so the totals of the levels and the depth indices can
pass the largest word, and then they wrap. They do not in runs in which, whenever the book takes an
order, the depth indices of its side have room for its quantity. Beside what rests these hold what
fills took from orders, so what rests may be far less than a word when the room ends.
-/

namespace MatchX

open MatchX.Support

namespace MatchingEngine

variable {config : InstrumentConfig} {engine : MatchingEngine config} {queues : Queues}
  {command : Command}

/-- The depth indices have room for every quantity that the book takes during a call. -/
def Roomy (engine : MatchingEngine config) (command : Command) : Prop :=
  ∀ site order qty, RestsAt engine command site order qty → DepthRoom site order qty

/-- Every sum of quantities is the true one, whatever the depth indices hold. -/
def SumsTrue (engine : MatchingEngine config) : Prop :=
  ∃ held, TrueSums engine.book engine.arena held

/-- Every sum of quantities in a call is the true one: those of the states in which it looks at the
book, or changes it, those of the books that take an order, whose own additions do not overflow,
and those it leaves. -/
structure CallSumsTrue (engine : MatchingEngine config) (command : Command) : Prop where
  /-- The sums are true while the call is under way. -/
  during : ∀ state, During engine command state → SumsTrue state
  /-- They are true where an order comes to rest, and stay so. -/
  rests : ∀ site order qty, RestsAt engine command site order qty → SumsTrue site ∧
    (site.book.lookup order.id = none → site.arena.freeHead ≠ freeListEnd →
      site.book.RestFits order.side order.price qty)
  /-- They are true at the end. -/
  returns : ∀ after, engine.process command = .ok after → SumsTrue after

/-- The sums of a sound engine are true where its depth indices hold what rests. -/
theorem Sound.sumsTrue (sound : engine.Sound queues)
    (covers : ∃ held, DepthCovers engine.book engine.arena held) : SumsTrue engine :=
  covers.imp fun _ covers => covers.trueSums sound.rep

/-- A call whose insertions the depth indices have room for has true sums throughout. -/
theorem callSumsTrue (room : Roomy engine command) (sound : engine.Sound queues)
    (covers : ∃ held, DepthCovers engine.book engine.arena held) : CallSumsTrue engine command := by
  have keeps := keepsCovers room
  have start : engine.clearEvents.Sound queues := sound.congr rfl rfl
  have submitted : ∀ {site order}, Submits engine command site order → (∃ queues, site.Sound queues) ∧
      ∃ held, DepthCovers site.book site.arena held := fun submits =>
    keeps.kept.submits ⟨⟨queues, start⟩, covers⟩ submits
  refine ⟨fun state during => ?_, fun site order qty rests => ?_, fun after returned => ?_⟩
  · cases during with
    | command => exact start.sumsTrue covers
    | site submits =>
      obtain ⟨⟨queues', sound'⟩, covers'⟩ := submitted submits
      exact sound'.sumsTrue covers'
    | sweep sweeps =>
      obtain ⟨⟨queues', sound'⟩, covers'⟩ := submitted sweeps.submits
      obtain ⟨⟨queues'', sound''⟩, covers''⟩ := keeps.swept sound' covers' sweeps
      exact sound''.sumsTrue covers''
    | filled sweeps left front live apart returned =>
      obtain ⟨⟨queues', sound'⟩, covers'⟩ := submitted sweeps.submits
      obtain ⟨⟨queues'', sound''⟩, held, covers''⟩ := keeps.swept sound' covers' sweeps
      obtain ⟨taken, covers''', -⟩ := takeFrom_covers sound'' covers''
        (front_of_frontMaker sound''.rep front)
        (UInt64.le_trans Std.min_le_right Order.matchableQty_le) returned
      exact taken.sumsTrue ⟨held, covers'''⟩
  · have here : (∃ queues, site.Sound queues) ∧ ∃ held, DepthCovers site.book site.arena held := by
      cases rests with
      | posted submits =>
        obtain ⟨⟨queues', sound'⟩, covers'⟩ := submitted submits
        exact ⟨⟨queues', sound'.accept order⟩, covers'⟩
      | remainder submits kind checked swept =>
        obtain ⟨⟨queues', sound'⟩, covers'⟩ := submitted submits
        obtain ⟨last, queues'', sweeps, sound'', -, iteration, covers''⟩ :=
          keeps.sweptOut sound' covers' submits kind checked swept
        exact ⟨iteration.sound sound'', covers''⟩
    obtain ⟨⟨queues', sound'⟩, held, covers'⟩ := here
    refine ⟨sound'.sumsTrue ⟨held, covers'⟩, fun unused free => ?_⟩
    obtain ⟨word, fits⟩ := room site order qty rests unused free
    rw [covers'.toNat_depthTotal] at word
    exact covers'.restFits sound'.rep fits word
  · obtain ⟨⟨queues', sound'⟩, covers'⟩ := keeps.kept.returns ⟨⟨queues, start⟩, covers⟩ returned
    exact sound'.sumsTrue covers'

/-- In every run of calls whose insertions the depth indices have room for, every sum of quantities
in every such call is the true one. -/
theorem sums_true_with_room (config : InstrumentConfig) (engine : MatchingEngine config)
    (reached : Reaches config Roomy engine) (command : Command) (room : Roomy engine command) :
    CallSumsTrue engine command := by
  obtain ⟨⟨queues, sound⟩, covers⟩ := KeepsBook.reaches (fun _ _ => keepsCovers)
    (fun capacity => ⟨_, DepthCovers.new config capacity⟩) reached
  exact callSumsTrue room sound covers

/-- Two asks rest at one price; the largest word still has room for the second one. -/
theorem sums_true_of_two_asks : ∃ engine : MatchingEngine (smallConfig .cancelNewest),
    CallSumsTrue engine (.submit { NewOrder.gtc 2 .ask 2 (2 ^ 63 - 1) with orderType := .postOnly }) ∧
      (engine.book.getLevelQty .ask 2 == 2 ^ 63) = true := by
  obtain ⟨engine, reached, shown⟩ := Reaches.exists_run Roomy tidy
    (fun engine : MatchingEngine (smallConfig .cancelNewest) =>
      tidy engine (.submit { NewOrder.gtc 2 .ask 2 (2 ^ 63 - 1) with orderType := .postOnly }) &&
        engine.book.getLevelQty .ask 2 == 2 ^ 63)
    (fun _ _ passes => (clean_of_tidy passes).room) 8
    [.submit { NewOrder.gtc 1 .ask 2 (2 ^ 63) with orderType := .postOnly }] (by decide +kernel)
  rw [Bool.and_eq_true] at shown
  exact ⟨engine, sums_true_with_room _ engine reached _ (clean_of_tidy shown.1).room, shown.2⟩

/-- The total of a level with two asks of 2 ^ 63 is zero. -/
theorem sums_wrap_of_two_asks :
    ¬∀ engine : MatchingEngine (smallConfig .cancelNewest), Reachable engine → ∀ command,
      CallSumsTrue engine command := by
  intro always
  obtain ⟨engine, reachable, shown⟩ := Reachable.exists_run
    (fun engine : MatchingEngine (smallConfig .cancelNewest) =>
      (engine.book.level .ask 2).totalQuantity == 0 &&
        engine.arena.sumResting .ask (· == 2) == 2 ^ 64) 8
    [.submit (.gtc 1 .ask 2 (2 ^ 63)), .submit (.gtc 2 .ask 2 (2 ^ 63))] (by decide +kernel)
  simp only [Bool.and_eq_true, beq_iff_eq] at shown
  obtain ⟨total, rests⟩ := shown
  obtain ⟨held, sums⟩ := (always engine reachable (.cancelOrder 1)).during _ .command
  have level : (engine.book.level .ask 2).totalQuantity.toNat = engine.arena.sumResting .ask (· == 2) :=
    sums.levels .ask 2
  rw [total, rests] at level
  exact absurd level (by decide)

end MatchingEngine

end MatchX
