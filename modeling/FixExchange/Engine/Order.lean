/-
# The records of the matching engine

The types of `src/engine/Order.h`.  Prices are `double`s in the source; every finite
`double` is a rational number and the book only compares and copies prices, so a price is
a rational here; the risk engine, which computes with them, rounds where the source does.
Quantities are `int`s and are modelled by the integers; the totals of a book, which nothing
bounds, are computed in two's complement.  The wall-clock fields (`arrival_ns`, `dequeue_ns`) only
feed latency statistics and are left out.
-/
import Mathlib.Data.List.AList
import Mathlib.Algebra.Order.Ring.Rat
import Mathlib.Tactic

namespace FixExchange

/-- A price. -/
abbrev Price := ℚ

/-- The largest `int`. -/
def maxInt : ℤ := 2147483647

/-- A hash map with string keys. -/
abbrev StrMap (α : Type) := AList fun _ : String => α

/-- `engine::Order`. -/
structure Order where
  /-- FIX tag 11, the reference assigned by the client. -/
  clordId : String
  /-- FIX tag 37, assigned by the exchange, e.g. `EXCH-1`. -/
  exchangeId : String
  /-- FIX SenderCompID of the client. -/
  clientId : String
  symbol : String
  /-- `'1'` buy, `'2'` sell. -/
  side : Char
  /-- `'1'` market, `'2'` limit. -/
  type : Char
  price : Price
  qty : ℤ
  leavesQty : ℤ
  /-- `'0'` good till cancel, `'3'` immediate or cancel, `'4'` fill or kill. -/
  tif : Char := '0'
deriving DecidableEq, Repr

/-- `engine::CancelRequest`. -/
structure CancelRequest where
  /-- The exchange id of the order to cancel, resolved by the gateway. -/
  origOrderId : String
  clientId : String
  symbol : String
deriving DecidableEq, Repr

/-- `engine::ReplaceRequest`. -/
structure ReplaceRequest where
  /-- The exchange id of the order to replace, resolved by the gateway. -/
  origOrderId : String
  oldClordId : String
  newClordId : String
  clientId : String
  symbol : String
  side : Char
  newPrice : Price
  newQty : ℤ
deriving DecidableEq, Repr

/-- `engine::Fill`: one side of a trade. -/
structure Fill where
  execId : String
  clordId : String
  exchangeId : String
  clientId : String
  symbol : String
  side : Char
  /-- The execution price. -/
  price : Price
  /-- The quantity of this fill. -/
  qty : ℤ
  leavesQty : ℤ
  /-- The quantity of the order. -/
  orderQty : ℤ
  orderType : Char
  /-- The limit price, meaningful when `orderType` is `'2'`. -/
  limitPrice : Price
deriving DecidableEq, Repr

/-- `engine::BookLevel`: a price with the total open quantity at it. -/
structure BookLevel where
  price : Price
  qty : ℤ
deriving DecidableEq, Repr

namespace Order

/-- The order with another open quantity. -/
def withLeaves (o : Order) (leaves : ℤ) : Order := { o with leavesQty := leaves }

@[simp] lemma withLeaves_clordId (o : Order) (l : ℤ) : (o.withLeaves l).clordId = o.clordId := rfl
@[simp] lemma withLeaves_exchangeId (o : Order) (l : ℤ) :
    (o.withLeaves l).exchangeId = o.exchangeId := rfl
@[simp] lemma withLeaves_clientId (o : Order) (l : ℤ) :
    (o.withLeaves l).clientId = o.clientId := rfl
@[simp] lemma withLeaves_symbol (o : Order) (l : ℤ) : (o.withLeaves l).symbol = o.symbol := rfl
@[simp] lemma withLeaves_side (o : Order) (l : ℤ) : (o.withLeaves l).side = o.side := rfl
@[simp] lemma withLeaves_type (o : Order) (l : ℤ) : (o.withLeaves l).type = o.type := rfl
@[simp] lemma withLeaves_price (o : Order) (l : ℤ) : (o.withLeaves l).price = o.price := rfl
@[simp] lemma withLeaves_qty (o : Order) (l : ℤ) : (o.withLeaves l).qty = o.qty := rfl
@[simp] lemma withLeaves_leavesQty (o : Order) (l : ℤ) : (o.withLeaves l).leavesQty = l := rfl
@[simp] lemma withLeaves_tif (o : Order) (l : ℤ) : (o.withLeaves l).tif = o.tif := rfl
@[simp] lemma withLeaves_withLeaves (o : Order) (l l' : ℤ) :
    (o.withLeaves l).withLeaves l' = o.withLeaves l' := rfl
@[simp] lemma withLeaves_self (o : Order) : o.withLeaves o.leavesQty = o := rfl

end Order

end FixExchange
