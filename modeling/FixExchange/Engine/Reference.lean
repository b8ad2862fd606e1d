/-
# The reference market

The abstract view of the whole engine: a market has a flat book for each of its symbols, reads work
items one after the other, and tells what happens.  An item is worked off at once, in the book of
its symbol: the times in force are stated in terms of the orders that rest on the other side, and
nothing is said of levels, iterators, threads or callbacks.  The loop of `MatchingEngine::run`
does on the book what the market does on the flat book (`processIn_refines`).
-/
import FixExchange.Engine.TimeInForce

namespace FixExchange

/-- Something that happens in the market. -/
inductive MarketEvent
  | traded (trade : Trade)
  | canceled (req : CancelRequest) (found : Bool)
  | expired (order : Order)
  | replaced (req : ReplaceRequest) (found : Bool) (newLeavesQty : ℤ)
  | rested (order : Order) (leavesQty : ℤ)
deriving DecidableEq, Repr

/-- A price that is beyond the limit of an order. -/
def Order.Beyond (o : Order) (p : Price) : Prop :=
  o.type = '2' ∧ if o.side = '1' then o.price < p else p < o.price

instance (o : Order) (p : Price) : Decidable (o.Beyond p) := by
  unfold Order.Beyond; infer_instance

namespace FlatBook

/-- The open quantity within the limit of an order. -/
def available (b : FlatBook) (o : Order) : ℤ :=
  openQty ((b.opposite o).takeWhile fun m => ¬ o.Beyond m.price)

/-- What happens to the part of an order that has not been traded: it expires, rests, or is
dropped. -/
def remainder (o : Order) (leavesQty : ℤ) : List MarketEvent :=
  if leavesQty ≤ 0 ∨ o.tif = '4' then []
  else if o.tif = '3' then [.expired (o.withLeaves leavesQty)]
  else if o.type = '2' then [.rested o leavesQty]
  else []

lemma remainder_of_nonpos {o : Order} {leavesQty : ℤ} (h : leavesQty ≤ 0) :
    remainder o leavesQty = [] :=
  if_pos (Or.inl h)

lemma remainder_of_pos {o : Order} {leavesQty : ℤ} (h : 0 < leavesQty) (h4 : o.tif ≠ '4') :
    remainder o leavesQty = if o.tif = '3' then [.expired (o.withLeaves leavesQty)]
      else if o.type = '2' then [.rested o leavesQty] else [] :=
  if_neg (not_or.mpr ⟨not_le.mpr h, h4⟩)

/-- Work off an order: one that is to be filled or killed is killed when too little is open within
its limit. -/
def processOrder (b : FlatBook) (o : Order) : FlatBook × List MarketEvent :=
  if o.tif = '4' ∧ b.available o < o.qty then (b, [.expired (o.withLeaves o.qty)])
  else ((b.add o).book, (b.add o).trades.map .traded ++ remainder o (b.add o).value)

/-- Work off an item. -/
def process (b : FlatBook) : WorkItem → FlatBook × List MarketEvent
  | .order o => b.processOrder o
  | .cancel req => ((b.cancel req.origOrderId).1, [.canceled req (b.cancel req.origOrderId).2])
  | .replace req =>
    let result := b.replace req.origOrderId req.newPrice req.newQty
    (result.book,
      result.trades.map .traded ++ [.replaced req (decide (0 ≤ result.value)) result.value])

end FlatBook

/-- The books of a market, by symbol. -/
abbrev Market := String → Option FlatBook

/-- What a market reads. -/
inductive MarketInput
  | item (item : WorkItem)
  | symbol (symbol : String)
deriving DecidableEq, Repr

/-- The item that is read. -/
def MarketInput.item? : MarketInput → Option WorkItem
  | .item i => some i
  | .symbol _ => none

namespace Market

/-- A market reads an input: an item is worked off in the book of its symbol, and a new symbol gets
an empty book. -/
def next (m : Market) : MarketInput → Market × List MarketEvent
  | .item item =>
    match m item.symbol with
    | none => (m, [])
    | some b => (Function.update m item.symbol (some (b.process item).1), (b.process item).2)
  | .symbol symbol =>
    (if m symbol = none then Function.update m symbol (some .empty) else m, [])

lemma next_item {m : Market} {item : WorkItem} {b : FlatBook} (h : m item.symbol = some b) :
    m.next (.item item)
      = (Function.update m item.symbol (some (b.process item).1), (b.process item).2) := by
  rw [next, h]

end Market

/-- A call of a callback tells what happens in the market. -/
def Callback.Tells : Callback → MarketEvent → Prop
  | .onFill maker taker, .traded t => FillPair.Reports ⟨maker, taker⟩ t
  | .onCancel req found, .canceled req' found' => req = req' ∧ found = found'
  | .onTIFCancel order, .expired order' => order = order'
  | .onReplace req found leavesQty, .replaced req' found' leavesQty' =>
    req = req' ∧ found = found' ∧ leavesQty = leavesQty'
  | .onOrderRested order leavesQty, .rested order' leavesQty' =>
    order = order' ∧ leavesQty = leavesQty'
  | _, _ => False

/-- A fill leaves the incoming order open for an `int`. -/
def Callback.InRange : Callback → Prop
  | .onFill _ taker => taker.leavesQty ≤ maxInt
  | .onCancel _ _ | .onTIFCancel _ | .onReplace _ _ _ | .onOrderRested _ _ => True

instance : DecidablePred Callback.InRange
  | .onFill _ taker => inferInstanceAs (Decidable (taker.leavesQty ≤ maxInt))
  | .onCancel _ _ | .onTIFCancel _ | .onReplace _ _ _ | .onOrderRested _ _ => isTrue trivial

namespace OrderBook

variable {b : OrderBook} {o : Order}

lemma tells_fillCallbacks (symbol : String) (seq : ℕ) (ts : List Trade) :
    List.Forall₂ Callback.Tells (fillCallbacks (fillsOf symbol seq ts))
      (ts.map MarketEvent.traded) := by
  rw [fillCallbacks, List.forall₂_map_left_iff, List.forall₂_map_right_iff]
  exact fillsOf_reports symbol seq ts

/-- **`available_to_fill` is what is open within the limit**, for every type of order. -/
theorem availableExact_toFlat (h : b.Wf) (o : Order) :
    b.availableExact o = b.toFlat.available o := by
  have hbeyond : ∀ p, decide (¬ o.Beyond p)
      = !(o.type == '2' && if o.side = '1' then decide (p > o.price) else decide (p < o.price)) := by
    intro p
    by_cases ht : o.type = '2' <;> by_cases hs : o.side = '1' <;> simp [Order.Beyond, ht, hs, -not_lt]
  by_cases hs : o.side = '1'
  · simp only [availableExact, addends, FlatBook.available, FlatBook.opposite, if_pos hs, toFlat,
      hbeyond]
    exact congrArg List.sum
      (addends_takeWhile h.asks_leveled fun p => !(o.type == '2' && decide (p > o.price)))
  · simp only [availableExact, addends, FlatBook.available, FlatBook.opposite, if_neg hs, toFlat,
      hbeyond]
    exact congrArg List.sum
      (addends_takeWhile h.bids_leveled fun p => !(o.type == '2' && decide (p < o.price)))

/-- The engine computes with `int`s when it works off an item: the totals of what a fill-or-kill
order can be filled with are `int`s, and so is what each trade leaves of the incoming order. -/
def InRange (b : OrderBook) (item : WorkItem) : Prop :=
  (match item with
    | .order o => o.tif = '4' → WrapSum.RunningFits 32 (b.addends o)
    | .cancel _ | .replace _ => True) ∧
    ∀ cb ∈ (processIn b item).2, cb.InRange

instance (b : OrderBook) (item : WorkItem) : Decidable (b.InRange item) := by
  unfold InRange
  cases item <;> infer_instance

/-- The calls for an order that is added: its fills, and what is told of the rest. -/
lemma tells_added (h : b.Wf) {last : List Callback} {leavesQty : ℤ}
    (hlast : List.Forall₂ Callback.Tells last (FlatBook.remainder o leavesQty))
    (hvalue : (b.add o).value = leavesQty) :
    List.Forall₂ Callback.Tells (fillCallbacks (b.add o).fills ++ last)
      ((b.toFlat.add o).trades.map MarketEvent.traded
        ++ FlatBook.remainder o (b.toFlat.add o).value) := by
  obtain ⟨-, hflat, hfills⟩ := add_toFlat h o
  rw [hfills, ← hflat, hvalue]
  exact List.rel_append (tells_fillCallbacks _ _ _) hlast

lemma processOrder_refines (h : b.Wf) (o : Order)
    (hfits : o.tif = '4' → b.availableToFill o = b.availableExact o) :
    (processOrder b o).1.toFlat = (b.toFlat.processOrder o).1 ∧
      List.Forall₂ Callback.Tells (processOrder b o).2 (b.toFlat.processOrder o).2 := by
  have hbook := (add_toFlat h o).1
  have hadded : ∀ {last}, List.Forall₂ Callback.Tells last
      (FlatBook.remainder o (b.add o).value) → _ := fun hlast => tells_added h hlast rfl
  rw [FlatBook.processOrder, ← availableExact_toFlat h]
  by_cases h4 : o.tif = '4'
  · rw [processOrder_fok h4, ← hfits h4]
    by_cases hkill : b.availableToFill o < o.qty
    · rw [if_pos hkill, if_pos ⟨h4, hkill⟩]
      exact ⟨rfl, .cons rfl .nil⟩
    · rw [if_neg hkill, if_neg fun hand => hkill hand.2]
      refine ⟨hbook, ?_⟩
      have hnil : FlatBook.remainder o (b.add o).value = [] := if_pos (Or.inr h4)
      have hlast : List.Forall₂ Callback.Tells [] (FlatBook.remainder o (b.add o).value) := by
        rw [hnil]
        exact .nil
      simpa using hadded hlast
  · rw [if_neg fun hand => h4 hand.1]
    by_cases h3 : o.tif = '3'
    · rw [processOrder_ioc h3]
      refine ⟨hbook, hadded ?_⟩
      by_cases hv : (b.add o).value > 0
      · rw [if_pos hv, FlatBook.remainder_of_pos hv h4, if_pos h3]
        exact .cons rfl .nil
      · rw [if_neg hv, FlatBook.remainder_of_nonpos (not_lt.mp hv)]
        exact .nil
    · rw [processOrder_rest h4 h3]
      refine ⟨hbook, hadded ?_⟩
      by_cases hv : (b.add o).value > 0
      · rw [FlatBook.remainder_of_pos hv h4, if_neg h3]
        by_cases ht : o.type = '2'
        · rw [if_pos (And.intro hv ht), if_pos ht]
          exact .cons ⟨rfl, rfl⟩ .nil
        · rw [if_neg fun hand : _ ∧ _ => ht hand.2, if_neg ht]
          exact .nil
      · rw [if_neg fun hand : _ ∧ _ => hv hand.1, FlatBook.remainder_of_nonpos (not_lt.mp hv)]
        exact .nil

/-- **The loop body of the engine refines the market**: on a well-formed book an item leaves the
flat book that the market leaves, and the calls tell what happens, when the engine computes with
`int`s. -/
theorem processIn_refines (h : b.Wf) (hk : b.Keyed) (item : WorkItem) (hfits : b.InRange item) :
    (processIn b item).1.toFlat = (b.toFlat.process item).1 ∧
      List.Forall₂ Callback.Tells (processIn b item).2 (b.toFlat.process item).2 := by
  cases item with
  | order o =>
    exact processOrder_refines h o fun h4 => WrapSum.wrapSum_of_fits (hfits.1 h4 _ List.prefix_rfl)
  | cancel req =>
    obtain ⟨hbook, hfound⟩ := cancel_toFlat hk h req.origOrderId
    exact ⟨hbook, .cons ⟨rfl, hfound⟩ .nil⟩
  | replace req =>
    obtain ⟨hbook, hvalue, hfills⟩ := replace_toFlat hk h req.origOrderId req.newPrice req.newQty
    refine ⟨hbook, ?_⟩
    rw [processIn, processReplace, FlatBook.process]
    dsimp only
    rw [hfills, hvalue]
    exact List.rel_append (tells_fillCallbacks _ _ _) (.cons ⟨rfl, rfl, rfl⟩ .nil)

end OrderBook

end FixExchange
