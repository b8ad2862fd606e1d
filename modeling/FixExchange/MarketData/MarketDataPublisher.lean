/-
# The market data publisher

A model of `src/market_data/MarketDataEvent.h` and `MarketDataPublisher.cpp`: the packets of
the multicast feed.  The fixed-size text fields of a packet are padded with NUL characters,
and a text that does not fit is cut off; a character stands for a byte.
-/
import FixExchange.Engine.Order

namespace FixExchange

/-- `market_data::EventType`. -/
inductive EventType
  | NewOrder | Cancel | FillResting | Trade | ReplaceInPlace | ReplaceDelete | ReplaceNew
deriving DecidableEq, Repr

/-- The text field of a packet: `n` characters. -/
def FixedText (n : ℕ) : Type := { cs : List Char // cs.length = n }

instance (n : ℕ) : DecidableEq (FixedText n) := inferInstanceAs (DecidableEq { _cs // _ })

/-- `fill_fixed`: the text, cut off after `n` characters and padded with NUL characters. -/
def fillFixed (n : ℕ) (src : String) : FixedText n :=
  ⟨src.toList.take n ++ List.replicate (n - src.toList.length) '\x00', by
    rw [List.length_append, List.length_take, List.length_replicate]; omega⟩

/-- `market_data::MdPacket`. -/
structure MdPacket where
  seq : ℕ
  eventType : EventType
  /-- `'0'` bid, `'1'` ask, `'2'` trade. -/
  side : Char
  symbol : FixedText 8
  price : Price
  qty : ℤ
  exchangeId : FixedText 16
deriving DecidableEq

/-- `market_data::MarketDataPublisher`: the sequence number and the packets sent so far. -/
structure MarketDataPublisher where
  seq : ℕ
  sent : List MdPacket

namespace MarketDataPublisher

/-- A publisher that has sent nothing. -/
def init : MarketDataPublisher := ⟨0, []⟩

/-- `MarketDataPublisher::send`, given the fields of the packet other than its number. -/
def send (m : MarketDataPublisher) (eventType : EventType) (side : Char) (symbol : String)
    (price : Price) (qty : ℤ) (exchangeId : String) : MarketDataPublisher where
  seq := m.seq + 1
  sent := m.sent
    ++ [⟨m.seq + 1, eventType, side, fillFixed 8 symbol, price, qty, fillFixed 16 exchangeId⟩]

/-- The side of an order in a packet. -/
def packetSide (side : Char) : Char := if side = '1' then '0' else '1'

/-- `MarketDataPublisher::on_new_order`. -/
def onNewOrder (m : MarketDataPublisher) (order : Order) (leavesQty : ℤ) : MarketDataPublisher :=
  m.send .NewOrder (packetSide order.side) order.symbol order.price leavesQty order.exchangeId

/-- `MarketDataPublisher::on_cancel`. -/
def onCancel (m : MarketDataPublisher) (order : Order) : MarketDataPublisher :=
  m.send .Cancel (packetSide order.side) order.symbol order.price 0 order.exchangeId

/-- `MarketDataPublisher::on_fill`: an update of the resting order and a trade print. -/
def onFill (m : MarketDataPublisher) (maker : Fill) : MarketDataPublisher :=
  (m.send .FillResting (packetSide maker.side) maker.symbol maker.price maker.leavesQty
      maker.exchangeId)
    |>.send .Trade '2' maker.symbol maker.price maker.qty maker.exchangeId

/-- `MarketDataPublisher::on_replace`. -/
def onReplace (m : MarketDataPublisher) (req : ReplaceRequest) (newLeavesQty : ℤ)
    (oldPrice : Price) : MarketDataPublisher :=
  if oldPrice = req.newPrice then
    m.send .ReplaceInPlace (packetSide req.side) req.symbol req.newPrice newLeavesQty
      req.origOrderId
  else
    (m.send .ReplaceDelete (packetSide req.side) req.symbol oldPrice 0 req.origOrderId)
      |>.send .ReplaceNew (packetSide req.side) req.symbol req.newPrice newLeavesQty
        req.origOrderId

end MarketDataPublisher

end FixExchange
