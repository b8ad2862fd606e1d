/-
# The order book

A model of `src/engine/OrderBook.cpp`.  The two `absl::btree_map`s of the book are ordered
maps with opposite comparators whose values are the `std::list`s of the price levels.  A
list iterator designates a list node for as long as the node lives, whatever happens around
it; a node therefore carries an address, an iterator is an address, and dereferencing it is
finding the node with this address.  `orderIndex` maps an exchange id to such an iterator.

The callbacks of the source that run inside an operation (`on_fill_`) do not touch the
book; an operation returns the list of the fills it reported, in order.
-/
import FixExchange.Engine.Order
import FixExchange.Lib.LevelMap
import FixExchange.Lib.WrapSum

namespace FixExchange

open WrapSum

/-- A node of a `std::list<Order>`. -/
structure Node where
  /-- The address of the node: what an iterator to it designates. -/
  addr : ℕ
  order : Order
deriving DecidableEq, Repr

/-- One side of the book: the price levels in the order of the comparator `r`. -/
abbrev BookSide (r : Price → Price → Prop) := SortedMap r (List Node)

/-- `engine::OrderBook`. -/
structure OrderBook where
  symbol : String
  /-- The buy side, highest price first. -/
  bids : BookSide (· > ·)
  /-- The sell side, lowest price first. -/
  asks : BookSide (· < ·)
  /-- The iterator of every resting order, by exchange id. -/
  orderIndex : StrMap ℕ
  execSeq : ℕ
  /-- The address of the next list node to be allocated. -/
  nextAddr : ℕ

/-- A call of `on_fill_`: the fill of the resting order and the fill of the incoming one. -/
structure FillPair where
  maker : Fill
  taker : Fill
deriving DecidableEq, Repr

/-- `OrderBook::make_fill`, for the value `execSeq` of the counter after its increment. -/
def makeFill (symbol : String) (execSeq : ℕ) (order : Order) (price : Price) (qty leaves : ℤ) :
    Fill where
  execId := symbol ++ "-" ++ toString execSeq
  clordId := order.clordId
  exchangeId := order.exchangeId
  clientId := order.clientId
  symbol := symbol
  side := order.side
  price := price
  qty := qty
  leavesQty := leaves
  orderQty := order.qty
  orderType := order.type
  limitPrice := order.price

/-- What `match_against` works on: the aggressor, the opposite side, and the members of the
book that the loop changes. -/
structure MatchState (r : Price → Price → Prop) where
  aggressor : Order
  opposite : BookSide r
  orderIndex : StrMap ℕ
  execSeq : ℕ
  /-- The fills reported so far. -/
  fills : List FillPair

/-- The crossing test of `match_against`. -/
def crosses (aggressor : Order) (isBuy : Bool) (bestPrice : Price) : Bool :=
  aggressor.type == '1' ||
    (if isBuy then decide (aggressor.price ≥ bestPrice) else decide (aggressor.price ≤ bestPrice))

section Match

variable {r : Price → Price → Prop} [DecidableRel r] [IsStrictTotalOrder Price r]

/-- One trade of `match_against`: the aggressor against the first order `resting` of the
first level, whose other orders are `q`.  What is open of the aggressor is an exact integer here: it
leaves the range of `int` only against an order whose open quantity is negative. -/
def MatchState.trade (symbol : String) (s : MatchState r) (bestPrice : Price) (resting : Node)
    (q : List Node) : MatchState r :=
  let fillQty := min s.aggressor.leavesQty resting.order.leavesQty
  let aggressor := s.aggressor.withLeaves (s.aggressor.leavesQty - fillQty)
  let maker := resting.order.withLeaves (resting.order.leavesQty - fillQty)
  let takerFill := makeFill symbol (s.execSeq + 1) aggressor bestPrice fillQty aggressor.leavesQty
  let makerFill := makeFill symbol (s.execSeq + 2) maker bestPrice fillQty maker.leavesQty
  { aggressor := aggressor
    opposite := s.opposite.setLevel bestPrice
      (if maker.leavesQty = 0 then q else ⟨resting.addr, maker⟩ :: q)
    orderIndex :=
      if maker.leavesQty = 0 then s.orderIndex.erase maker.exchangeId else s.orderIndex
    execSeq := s.execSeq + 2
    fills := s.fills ++ [⟨makerFill, takerFill⟩] }

/-- One iteration of the loop of `match_against`, or `none` where the loop stops.  No level
is ever empty, so that `q.front()` is defined.  What a trade leaves is exact: it can leave the
range of `int` only when the maker has negative leaves, and where that matters the range is a
condition. -/
def matchStep (symbol : String) (isBuy : Bool) (s : MatchState r) : Option (MatchState r) :=
  if s.aggressor.leavesQty > 0 then
    match s.opposite.entries with
    | [] => none
    | (bestPrice, level) :: _ =>
      if crosses s.aggressor isBuy bestPrice then
        match level with
        | [] => none
        | resting :: q => some (s.trade symbol bestPrice resting q)
      else none
  else none

/-- The loop of `match_against`, for at most the given number of iterations. -/
def matchLoop (symbol : String) (isBuy : Bool) : ℕ → MatchState r → MatchState r
  | 0, s => s
  | n + 1, s =>
    match matchStep symbol isBuy s with
    | none => s
    | some s' => matchLoop symbol isBuy n s'

/-- `OrderBook::match_against`.  An iteration that does not exhaust the aggressor removes an
order, so that the number of orders on the opposite side bounds the iterations. -/
def matchAgainst (symbol : String) (isBuy : Bool) (s : MatchState r) : MatchState r :=
  matchLoop symbol isBuy s.opposite.flat.length s

end Match

/-- The outcome of an operation of the book: the book, the returned value, and the fills. -/
structure Outcome (α : Type) where
  book : OrderBook
  value : α
  fills : List FillPair

namespace OrderBook

/-- The constructor: an empty book. -/
def init (symbol : String) : OrderBook where
  symbol := symbol
  bids := SortedMap.empty
  asks := SortedMap.empty
  orderIndex := ∅
  execSeq := 0
  nextAddr := 0

/-- All list nodes of the book. -/
def nodes (b : OrderBook) : List Node := b.bids.flat ++ b.asks.flat

/-- Dereference an iterator. -/
def deref (b : OrderBook) (it : ℕ) : Option Order :=
  (b.nodes.find? fun n => n.addr = it).map Node.order

/-- The common code of `restore` and `add`: append the order to its level and record the
iterator to the new node. -/
def pushOrder (b : OrderBook) (order : Order) : OrderBook :=
  let index := b.orderIndex.insert order.exchangeId b.nextAddr
  if order.side = '1' then
    { b with
      bids := b.bids.pushBack order.price ⟨b.nextAddr, order⟩
      orderIndex := index
      nextAddr := b.nextAddr + 1 }
  else
    { b with
      asks := b.asks.pushBack order.price ⟨b.nextAddr, order⟩
      orderIndex := index
      nextAddr := b.nextAddr + 1 }

/-- `OrderBook::restore`. -/
def restore (b : OrderBook) (order : Order) : OrderBook := b.pushOrder order

/-- `OrderBook::try_match`: the aggressor after matching is the returned value. -/
def tryMatch (b : OrderBook) (aggressor : Order) : Outcome Order :=
  if aggressor.side = '1' then
    let s := matchAgainst b.symbol true ⟨aggressor, b.asks, b.orderIndex, b.execSeq, []⟩
    ⟨{ b with asks := s.opposite, orderIndex := s.orderIndex, execSeq := s.execSeq },
      s.aggressor, s.fills⟩
  else
    let s := matchAgainst b.symbol false ⟨aggressor, b.bids, b.orderIndex, b.execSeq, []⟩
    ⟨{ b with bids := s.opposite, orderIndex := s.orderIndex, execSeq := s.execSeq },
      s.aggressor, s.fills⟩

/-- `OrderBook::add`; the value is the open quantity after matching. -/
def add (b : OrderBook) (order : Order) : Outcome ℤ :=
  let m := b.tryMatch (order.withLeaves order.qty)
  if m.value.leavesQty > 0 ∧ m.value.type = '2' ∧ m.value.tif ≠ '3' then
    ⟨m.book.pushOrder m.value, m.value.leavesQty, m.fills⟩
  else
    ⟨m.book, m.value.leavesQty, m.fills⟩

/-- The common code of `cancel` and `replace`: drop the index entry, then the node, then its
level when the level is empty. -/
def unlink (b : OrderBook) (orderId : String) (it : ℕ) (price : Price) (side : Char) :
    OrderBook :=
  let index := b.orderIndex.erase orderId
  if side = '1' then
    { b with bids := b.bids.removeAt price (fun n => n.addr == it), orderIndex := index }
  else
    { b with asks := b.asks.removeAt price (fun n => n.addr == it), orderIndex := index }

/-- `OrderBook::cancel`.  The index never holds a dangling iterator. -/
def cancel (b : OrderBook) (orderId : String) : OrderBook × Bool :=
  match b.orderIndex.lookup orderId with
  | none => (b, false)
  | some it =>
    match b.deref it with
    | none => (b, false)
    | some order => (b.unlink orderId it order.price order.side, true)

/-- Write through an iterator. -/
def modify (b : OrderBook) (it : ℕ) (f : Order → Order) : OrderBook :=
  let g := fun n : Node => if n.addr = it then ⟨n.addr, f n.order⟩ else n
  { b with bids := b.bids.mapElems g, asks := b.asks.mapElems g }

/-- `OrderBook::replace`; the value is the new open quantity, `-1` when there is no such
order, and as exact as that of the match. -/
def replace (b : OrderBook) (orderId : String) (newPrice : Price) (newQty : ℤ) : Outcome ℤ :=
  match b.orderIndex.lookup orderId with
  | none => ⟨b, -1, []⟩
  | some it =>
    match b.deref it with
    | none => ⟨b, -1, []⟩
    | some order =>
      if newPrice = order.price ∧ newQty < order.leavesQty then
        ⟨b.modify it fun o => { o with qty := newQty, leavesQty := newQty }, newQty, []⟩
      else
        (b.unlink orderId it order.price order.side).add
          { order with price := newPrice, qty := newQty }

/-- The open quantities of the orders of a level. -/
def levelAddends (level : List Node) : List ℤ := level.map fun n => n.order.leavesQty

/-- What the loops of `available_to_fill` add up: each stops at the first level beyond the
limit. -/
def addends (b : OrderBook) (order : Order) : List ℤ :=
  if order.side = '1' then
    (b.asks.entries.takeWhile fun kv => !(order.type == '2' && decide (kv.1 > order.price))).flatMap
      fun kv => levelAddends kv.2
  else
    (b.bids.entries.takeWhile fun kv => !(order.type == '2' && decide (kv.1 < order.price))).flatMap
      fun kv => levelAddends kv.2

/-- `OrderBook::available_to_fill`: the total is an `int`. -/
def availableToFill (b : OrderBook) (order : Order) : ℤ := wrapSum 32 (b.addends order)

/-- The loop shared by `getBids` and `getAsks`: the totals are `int`s. -/
def levels {r : Price → Price → Prop} (side : BookSide r) : List BookLevel :=
  side.entries.filterMap fun kv =>
    if wrapSum 32 (levelAddends kv.2) > 0 then some ⟨kv.1, wrapSum 32 (levelAddends kv.2)⟩ else none

/-- `OrderBook::getBids`. -/
def getBids (b : OrderBook) : List BookLevel := levels b.bids

/-- `OrderBook::getAsks`. -/
def getAsks (b : OrderBook) : List BookLevel := levels b.asks

/-- `OrderBook::getOrders`. -/
def getOrders (b : OrderBook) : List Order := b.nodes.map Node.order

end OrderBook

end FixExchange
