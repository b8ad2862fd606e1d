/-
# A subscriber of the feed

A model of the order book that `ui/main.py` keeps from the packets of the feed: the Python
dictionaries `order_book` and `order_state`, and the fold `_apply_md`.
-/
import FixExchange.MarketData.MarketDataPublisher
import Mathlib.Data.List.DropRight

namespace FixExchange

/-- The open quantity by price, on one side of a symbol. -/
abbrev PriceLevels := AList fun _ : Price => ℤ

/-- An entry of `order_book`. -/
structure SymbolBook where
  bids : PriceLevels
  asks : PriceLevels

/-- An entry of `order_state`. -/
structure OrderState where
  price : Price
  qty : ℤ
  symbol : String
  side : Char
deriving DecidableEq, Repr

/-- What a subscriber keeps: `order_book` and `order_state`. -/
structure Subscriber where
  orderBook : StrMap SymbolBook
  orderState : StrMap OrderState

namespace Subscriber

/-- The text in a field of a packet: `rstrip(b"\x00").decode("ascii")`, which fails on other
characters than those of ASCII. -/
def decode {n : ℕ} (field : FixedText n) : Option String :=
  let text := field.1.rdropWhile fun c => c = '\x00'
  if text.all fun c => c.toNat < 128 then some (String.ofList text) else none

/-- The state before the first packet, with empty books for the symbols known in advance. -/
def init (symbols : List String) : Subscriber where
  orderBook := symbols.foldr (fun sym books => books.insert sym ⟨∅, ∅⟩) ∅
  orderState := ∅

/-- The book of a symbol, which is empty when there is none. -/
def bookOf (s : Subscriber) (symbol : String) : SymbolBook :=
  (s.orderBook.lookup symbol).getD ⟨∅, ∅⟩

/-- `_levels`, read. -/
def levels (s : Subscriber) (symbol : String) (side : Char) : PriceLevels :=
  if side = '0' then (s.bookOf symbol).bids else (s.bookOf symbol).asks

/-- `_set_level`. -/
def setLevel (levels : PriceLevels) (price : Price) (qty : ℤ) : PriceLevels :=
  if qty ≤ 0 then levels.erase price else levels.insert price qty

/-- `_set_level(lvls, price, lvls.get(price, 0) + delta)` on the levels that `_levels`
returns. -/
def addToLevel (s : Subscriber) (symbol : String) (side : Char) (price : Price) (delta : ℤ) :
    Subscriber :=
  let book := s.bookOf symbol
  let shift := fun levels : PriceLevels =>
    setLevel levels price ((levels.lookup price).getD 0 + delta)
  { s with
    orderBook := s.orderBook.insert symbol
      (if side = '0' then { book with bids := shift book.bids }
        else { book with asks := shift book.asks }) }

/-- Set an entry of `order_state`. -/
def setState (s : Subscriber) (id : String) (state : OrderState) : Subscriber :=
  { s with orderState := s.orderState.insert id state }

/-- Remove an entry of `order_state`. -/
def popState (s : Subscriber) (id : String) : Subscriber :=
  { s with orderState := s.orderState.erase id }

/-- `_levels` enters the symbol in `order_book` when it is missing. -/
def enterSymbol (s : Subscriber) (symbol : String) : Subscriber :=
  if symbol ∈ s.orderBook then s
  else { s with orderBook := s.orderBook.insert symbol ⟨∅, ∅⟩ }

/-- `_apply_md`. -/
def applyMd (s : Subscriber) (evt : EventType) (side : Char) (symbol : String) (price : Price)
    (qty : ℤ) (exchangeId : String) : Subscriber :=
  let s := s.enterSymbol symbol
  if side ≠ '0' ∧ side ≠ '1' then s
  else
    match evt with
    | .NewOrder =>
      (s.setState exchangeId ⟨price, qty, symbol, side⟩).addToLevel symbol side price qty
    | .Cancel =>
      match s.orderState.lookup exchangeId with
      | none => s
      | some prev => (s.popState exchangeId).addToLevel symbol side prev.price (-prev.qty)
    | .FillResting =>
      match s.orderState.lookup exchangeId with
      | none => s
      | some prev =>
        let s := s.addToLevel symbol side prev.price (-(prev.qty - qty))
        if qty = 0 then s.popState exchangeId else s.setState exchangeId { prev with qty := qty }
    | .Trade => s
    | .ReplaceInPlace =>
      match s.orderState.lookup exchangeId with
      | none => s
      | some prev =>
        (s.addToLevel symbol side prev.price (-(prev.qty - qty))).setState exchangeId
          { prev with qty := qty }
    | .ReplaceDelete =>
      match s.orderState.lookup exchangeId with
      | none => s
      | some prev => (s.popState exchangeId).addToLevel symbol side prev.price (-prev.qty)
    | .ReplaceNew =>
      (s.setState exchangeId ⟨price, qty, symbol, side⟩).addToLevel symbol side price qty

/-- `datagram_received`: a packet of the feed is unpacked and applied, unless unpacking it
fails. -/
def receive (s : Subscriber) (pkt : MdPacket) : Subscriber :=
  match decode pkt.symbol, decode pkt.exchangeId with
  | some symbol, some exchangeId =>
    s.applyMd pkt.eventType pkt.side symbol pkt.price pkt.qty exchangeId
  | _, _ => s

end Subscriber

end FixExchange
