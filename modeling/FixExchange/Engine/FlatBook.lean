/-
# Price-time priority on flat lists

The abstract view of an order book: each side is one list of resting orders, sorted by best
price first and, among equal prices, by arrival.  Matching repeatedly trades the incoming
order against the head of the opposite list.  Nothing here knows about price levels,
iterators or indices; `FixExchange.Engine.PriceTime` shows that the order book of the
exchange is an implementation of this one.
-/
import FixExchange.Engine.OrderBook

namespace FixExchange

/-- A trade: the resting and the incoming order as the trade leaves them. -/
structure Trade where
  maker : Order
  taker : Order
  price : Price
  qty : ℤ
deriving DecidableEq, Repr

/-- The trade of an incoming order against a resting one: as much as both are open for, at
the price of the resting order. -/
def Trade.of (taker maker : Order) : Trade :=
  let q := min taker.leavesQty maker.leavesQty
  ⟨maker.withLeaves (maker.leavesQty - q), taker.withLeaves (taker.leavesQty - q), maker.price, q⟩

/-- The incoming order accepts to trade at a price. -/
def Order.Reaches (o : Order) (p : Price) : Prop :=
  o.type = '1' ∨ if o.side = '1' then p ≤ o.price else o.price ≤ p

instance (o : Order) (p : Price) : Decidable (o.Reaches p) := by
  unfold Order.Reaches; infer_instance

/-- What matching an incoming order against a list of resting orders leaves: the incoming
order, the list, and the trades made. -/
structure Matched where
  taker : Order
  rest : List Order
  trades : List Trade
deriving DecidableEq, Repr

/-- Trade the incoming order against the head of the list for as long as it is open and
reaches the price of the head. -/
def matchList : Order → List Order → Matched
  | o, [] => ⟨o, [], []⟩
  | o, m :: l =>
    if o.leavesQty > 0 ∧ o.Reaches m.price then
      let t := Trade.of o m
      if t.maker.leavesQty = 0 then
        let d := matchList t.taker l
        ⟨d.taker, d.rest, t :: d.trades⟩
      else ⟨t.taker, t.maker :: l, [t]⟩
    else ⟨o, m :: l, []⟩

section matchList

variable {o m : Order} {l : List Order}

@[simp] lemma matchList_nil (o : Order) : matchList o [] = ⟨o, [], []⟩ := rfl

/-- The incoming order is exhausted or does not reach the head. -/
lemma matchList_stop (h : ¬(0 < o.leavesQty ∧ o.Reaches m.price)) :
    matchList o (m :: l) = ⟨o, m :: l, []⟩ := by
  rw [matchList, if_neg h]

/-- The trade fills the head, which leaves the list. -/
lemma matchList_pop (h : 0 < o.leavesQty ∧ o.Reaches m.price)
    (h0 : (Trade.of o m).maker.leavesQty = 0) :
    matchList o (m :: l) =
      ⟨(matchList (Trade.of o m).taker l).taker, (matchList (Trade.of o m).taker l).rest,
        Trade.of o m :: (matchList (Trade.of o m).taker l).trades⟩ := by
  rw [matchList, if_pos h]
  exact if_pos h0

/-- The trade exhausts the incoming order and leaves the head open. -/
lemma matchList_last (h : 0 < o.leavesQty ∧ o.Reaches m.price)
    (h0 : (Trade.of o m).maker.leavesQty ≠ 0) :
    matchList o (m :: l) =
      ⟨(Trade.of o m).taker, (Trade.of o m).maker :: l, [Trade.of o m]⟩ := by
  rw [matchList, if_pos h]
  exact if_neg h0

end matchList

/-- An order book as two sorted lists. -/
structure FlatBook where
  /-- The resting buy orders, best price first, then by arrival. -/
  bids : List Order
  /-- The resting sell orders, best price first, then by arrival. -/
  asks : List Order
deriving DecidableEq, Repr

namespace FlatBook

/-- The book without orders. -/
def empty : FlatBook := ⟨[], []⟩

/-- All resting orders. -/
def orders (b : FlatBook) : List Order := b.bids ++ b.asks

/-- Put an order behind all orders of the same side that are at least as good. -/
def place (b : FlatBook) (o : Order) : FlatBook :=
  if o.side = '1' then { b with bids := b.bids.orderedInsert (fun x y => x.price > y.price) o }
  else { b with asks := b.asks.orderedInsert (fun x y => x.price < y.price) o }

/-- A limit order whose time in force lets it rest. -/
def Rests (o : Order) : Prop := o.leavesQty > 0 ∧ o.type = '2' ∧ o.tif ≠ '3'

instance (o : Order) : Decidable (Rests o) := by unfold Rests; infer_instance

/-- The book and the matching result after an incoming order has been matched. -/
def matchIn (b : FlatBook) (o : Order) : FlatBook × Matched :=
  if o.side = '1' then
    let d := matchList o b.asks
    ({ b with asks := d.rest }, d)
  else
    let d := matchList o b.bids
    ({ b with bids := d.rest }, d)

/-- The outcome of an operation: the book, the returned value, and the trades. -/
structure Result where
  book : FlatBook
  value : ℤ
  trades : List Trade
deriving DecidableEq, Repr

/-- Match an order and let what remains open of it rest. -/
def add (b : FlatBook) (o : Order) : Result :=
  let (b', d) := b.matchIn (o.withLeaves o.qty)
  ⟨if Rests d.taker then b'.place d.taker else b', d.taker.leavesQty, d.trades⟩

/-- The resting order with an id. -/
def find? (b : FlatBook) (id : String) : Option Order :=
  b.orders.find? fun o => o.exchangeId = id

/-- Delete the order with an id. -/
def delete (b : FlatBook) (id : String) : FlatBook :=
  ⟨b.bids.filter fun o => o.exchangeId ≠ id, b.asks.filter fun o => o.exchangeId ≠ id⟩

/-- Cancel: delete the order with an id and say whether there was one. -/
def cancel (b : FlatBook) (id : String) : FlatBook × Bool := (b.delete id, (b.find? id).isSome)

/-- The order with its quantity and open quantity set. -/
def shrink (q : ℤ) (o : Order) : Order := { o with qty := q, leavesQty := q }

/-- Shrink the order with an id where it stands. -/
def shrinkAt (b : FlatBook) (id : String) (q : ℤ) : FlatBook :=
  let f := fun o : Order => if o.exchangeId = id then shrink q o else o
  ⟨b.bids.map f, b.asks.map f⟩

/-- Replace: shrink the order in place when only its quantity decreases, otherwise remove it
and submit it again with the new price and quantity. -/
def replace (b : FlatBook) (id : String) (p : Price) (q : ℤ) : Result :=
  match b.find? id with
  | none => ⟨b, -1, []⟩
  | some o =>
    if p = o.price ∧ q < o.leavesQty then ⟨b.shrinkAt id q, q, []⟩
    else (b.delete id).add { o with price := p, qty := q }

end FlatBook

end FixExchange
