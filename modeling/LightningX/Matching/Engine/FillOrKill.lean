import LightningX.Matching.Engine.Batch
import LightningX.Matching.Engine.Membership

/-!
# All or nothing

The check of a fill-or-kill order walks over the totals of the levels and changes
nothing.  It agrees with what `match_order` would do to the orders themselves, as
long as the lots it adds up fit in 64 bits.
-/

namespace LightningX.Matching

open Reference

namespace MatchingEngine

variable {config : PoolConfig} {engine : MatchingEngine} {book : Book}

theorem placeOrder_of_isFok (passes : engine.Passes order) (fok : order.isFok) :
    engine.placeOrder order =
      ({ engine with affectedMakersBuf := [] } : MatchingEngine).handleFok order := by
  rw [placeOrder_of_passes passes, handleOrder]
  simp only [fok.1, fok.2, Bool.false_eq_true, if_false]

theorem placeOrder_of_isPostOnly (passes : engine.Passes order) (postOnly : order.isPostOnly) :
    engine.placeOrder order =
      ({ engine with affectedMakersBuf := [] } : MatchingEngine).handlePostOnly order := by
  rw [placeOrder_of_passes passes, handleOrder]
  simp only [postOnly.1, postOnly.2, Bool.false_eq_true, if_false]

/-- The check says whether enough is offered. -/
theorem Sound.canFillFok_iff_offered
    (sound : Sound config engine [] book) (counted : ∀ side, Ladder.Counted (book side))
    (fits : Ladder.SumFits order (engine.levels order.side.opposite) 0)
    (sized : 0 < order.quantityLots) :
    engine.canFillFok order = true ↔ order.quantityLots ≤ engine.offered order := by
  have sorted := (sound.sides order.side.opposite).sorted
  rw [sound.levels_eq] at fits
  rw [sound.canFillFok_iff, Book.Fillable, offered, sound.resting_eq, Book.candidates_eq sorted,
    Ladder.hasCumulative_iff (counted _) (Ladder.Sorted.closed sorted) le_rfl sized fits, zero_add]

/-- `match_order` fills as much as is wanted and offered. -/
theorem Sound.matchOrder_eq_offered (sound : Sound config engine [] book)
    (unknown : order.id ∉ engine.orders) (sized : 0 < order.quantityLots) :
    (engine.matchOrder order).2 = .ok (min order.quantityLots (engine.offered order)) ∧
      traded (engine.matchOrder order).1.fillsBuf =
        min order.quantityLots (engine.offered order) := by
  obtain ⟨engine', fills, want, levels, matched, noted, trades, settled, -⟩ :=
    sound.matchOrder unknown
  have conserved := trades.conserves
  rw [← sound.traded_eq sized trades settled, matched, noted, traded]
  exact ⟨rfl, by omega⟩

/-- The result of a fill-or-kill order: nothing happens, or all of it is filled. -/
structure AllOrNothing (engine : MatchingEngine) (order : Order) : Prop where
  /-- An order that fails a check of `place_order` changes nothing. -/
  failed : ¬ engine.Passes order → ∃ error, engine.placeOrder order = (engine, .error error)
  /-- The check answers as `match_order` would. -/
  precheck : engine.Passes order →
    (engine.canFillFok order = true ↔ (engine.matchOrder order).2 = .ok order.quantityLots)
  /-- An order that cannot be filled is rejected and changes nothing. -/
  rejected : engine.Passes order → engine.canFillFok order = false →
    engine.placeOrder order =
      ({ engine with affectedMakersBuf := [] }, .ok (untouched order .rejected))
  /-- Another one is filled completely. -/
  filled : engine.Passes order → engine.canFillFok order = true →
    ∃ result, (engine.placeOrder order).2 = .ok result ∧ result.status = .filled ∧
      result.filledLots = order.quantityLots ∧ traded result.fills = order.quantityLots

theorem Sound.allOrNothing
    (sound : Sound config engine [] book) (counted : ∀ side, Ladder.Counted (book side))
    (fits : Ladder.SumFits order (engine.levels order.side.opposite) 0) (fok : order.isFok) :
    engine.AllOrNothing order where
  failed := placeOrder_of_not_passes
  precheck := by
    rintro ⟨valid, unknown, -⟩
    have sized := (validateOrder_eq_ok_iff.mp valid).2
    rw [sound.canFillFok_iff_offered counted fits sized,
      (sound.matchOrder_eq_offered unknown sized).1, Except.ok.injEq]
    omega
  rejected := by
    intro passes cannot
    have same : ({ engine with affectedMakersBuf := [] } : MatchingEngine).canFillFok order =
        false := cannot
    rw [placeOrder_of_isFok passes fok]
    simp only [MatchingEngine.handleFok, same, Bool.not_false, if_true]
  filled := by
    intro passes can
    obtain ⟨valid, unknown, -⟩ := id passes
    have sized := (validateOrder_eq_ok_iff.mp valid).2
    have enough := (sound.canFillFok_iff_offered counted fits sized).mp can
    obtain ⟨matched, filled⟩ := sound.clearMakers.matchOrder_eq_offered unknown sized
    have same : ({ engine with affectedMakersBuf := [] } : MatchingEngine).canFillFok order =
        true := can
    rw [show ({ engine with affectedMakersBuf := [] } : MatchingEngine).offered order =
      engine.offered order from rfl, Int.min_eq_left enough] at matched filled
    rw [placeOrder_of_isFok passes fok, MatchingEngine.handleFok]
    generalize ({ engine with affectedMakersBuf := [] } : MatchingEngine).matchOrder
      order = outcome at matched filled ⊢
    obtain ⟨engine', answer⟩ := outcome
    obtain rfl : answer = .ok order.quantityLots := matched
    simp only [same]
    exact ⟨_, rfl, rfl, rfl, filled⟩

/-- A post-only order never trades, and if it is rejected nothing happens. -/
theorem postOnly_quiet
    (postOnly : order.isPostOnly) (placed : (engine.placeOrder order).2 = .ok result) :
    result.fills = [] ∧ (result.status = .rejected →
      (engine.placeOrder order).1 = { engine with affectedMakersBuf := [] }) := by
  have passes : engine.Passes order := by
    by_contra failed
    obtain ⟨error, refused⟩ := placeOrder_of_not_passes failed
    rw [refused] at placed
    cases placed
  rw [placeOrder_of_isPostOnly passes postOnly] at placed ⊢
  unfold handlePostOnly at placed ⊢
  split_ifs at placed ⊢ with crosses
  · cases placed
    exact ⟨rfl, fun _ => rfl⟩
  · split at placed <;> cases placed
    exact ⟨rfl, nofun⟩

/-- After every run whose queues fit in 64 bits, a fill-or-kill order is filled completely
or nothing happens, as its check says, and a rejected post-only order changes nothing. -/
theorem run_allOrNothing (config : PoolConfig) (calls : List Call)
    (lotsFit : ∀ pre, pre <+: calls → ((new config).run pre).1.LotsFit) (request : Request) :
    (request.order.isFok →
      Ladder.SumFits request.order
        (((new config).run calls).1.levels request.order.side.opposite) 0 →
      ((new config).run calls).1.AllOrNothing request.order) ∧
    (request.order.isPostOnly → ∀ result,
      (((new config).run calls).1.placeOrder request.order).2 = .ok result →
      result.fills = [] ∧ (result.status = .rejected →
        (((new config).run calls).1.placeOrder request.order).1 =
          { ((new config).run calls).1 with affectedMakersBuf := [] })) := by
  obtain ⟨book, sound, counted⟩ := counted_run config calls lotsFit
  exact ⟨fun fok fits => sound.allOrNothing counted fits fok,
    fun postOnly result placed => postOnly_quiet postOnly placed⟩

/-- Two asks of five lots, of which a fill-or-kill bid for seven takes both or none. -/
theorem run_allOrNothing_twoAsks :
    ((new ⟨4, 4⟩).run [.place (.limit 1 .sell 100 5 .gtc 0),
        .place (.limit 2 .sell 101 5 .gtc 1)]).1.AllOrNothing
          (Request.limit 3 .buy 101 7 .fok 2).order ∧
      ((new ⟨4, 4⟩).run [.place (.limit 1 .sell 100 5 .gtc 0),
        .place (.limit 2 .sell 101 5 .gtc 1)]).1.AllOrNothing
          (Request.limit 3 .buy 100 7 .fok 2).order := by
  have lotsFit : ∀ pre ∈ List.inits [Call.place (.limit 1 .sell 100 5 .gtc 0),
      .place (.limit 2 .sell 101 5 .gtc 1)], ((new ⟨4, 4⟩).run pre).1.LotsFit := by
    decide
  have always := run_allOrNothing ⟨4, 4⟩ [.place (.limit 1 .sell 100 5 .gtc 0),
    .place (.limit 2 .sell 101 5 .gtc 1)]
    fun pre shorter => lotsFit pre ((List.mem_inits _ _).mpr shorter)
  exact ⟨(always (.limit 3 .buy 101 7 .fok 2)).1 (by decide) (by decide),
    (always (.limit 3 .buy 100 7 .fok 2)).1 (by decide) (by decide)⟩

end MatchingEngine
end LightningX.Matching
