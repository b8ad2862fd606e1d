/-
# The matching engine

A model of `src/engine/MatchingEngine.cpp`: the books by symbol, the work items, and the body
of the loop of `run`.  Processing an item changes the books and calls back into the gateway;
the callbacks do not touch the books, and the engine thread is the only one that does, so
that an item is processed here in one step that returns the calls it makes, in order.
-/
import FixExchange.Engine.OrderBook

namespace FixExchange

/-- A work item of the engine queue. -/
inductive WorkItem
  | order (order : Order)
  | cancel (req : CancelRequest)
  | replace (req : ReplaceRequest)
deriving DecidableEq, Repr

/-- A call of one of the callbacks of the engine. -/
inductive Callback
  | onFill (maker taker : Fill)
  | onCancel (req : CancelRequest) (found : Bool)
  | onTIFCancel (order : Order)
  | onReplace (req : ReplaceRequest) (found : Bool) (newLeavesQty : ℤ)
  | onOrderRested (order : Order) (leavesQty : ℤ)
deriving DecidableEq, Repr

/-- `engine::MatchingEngine`. -/
structure MatchingEngine where
  books : StrMap OrderBook
  validSymbols : Finset String

/-- The calls of `on_fill_` for the fills of an operation of the book. -/
def fillCallbacks (fills : List FillPair) : List Callback :=
  fills.map fun f => .onFill f.maker f.taker

/-- The `ORDER` branch of `run`. -/
def processOrder (book : OrderBook) (order : Order) : OrderBook × List Callback :=
  if order.tif = '4' then
    if book.availableToFill order < order.qty then
      (book, [.onTIFCancel (order.withLeaves order.qty)])
    else ((book.add order).book, fillCallbacks (book.add order).fills)
  else
    let added := book.add order
    if order.tif = '3' ∧ added.value > 0 then
      (added.book, fillCallbacks added.fills ++ [.onTIFCancel (order.withLeaves added.value)])
    else if added.value > 0 ∧ order.type = '2' then
      (added.book, fillCallbacks added.fills ++ [.onOrderRested order added.value])
    else (added.book, fillCallbacks added.fills)

/-- The `CANCEL` branch of `run`. -/
def processCancel (book : OrderBook) (req : CancelRequest) : OrderBook × List Callback :=
  ((book.cancel req.origOrderId).1, [.onCancel req (book.cancel req.origOrderId).2])

/-- The `REPLACE` branch of `run`. -/
def processReplace (book : OrderBook) (req : ReplaceRequest) : OrderBook × List Callback :=
  let result := book.replace req.origOrderId req.newPrice req.newQty
  (result.book,
    fillCallbacks result.fills ++ [.onReplace req (decide (result.value ≥ 0)) result.value])

/-- The symbol that an item names. -/
def WorkItem.symbol : WorkItem → String
  | .order o => o.symbol
  | .cancel req => req.symbol
  | .replace req => req.symbol

/-- What an item does to the book of its symbol. -/
def processIn (book : OrderBook) : WorkItem → OrderBook × List Callback
  | .order o => processOrder book o
  | .cancel req => processCancel book req
  | .replace req => processReplace book req

namespace MatchingEngine

/-- The constructor: one empty book for each symbol. -/
def init (symbols : List String) : MatchingEngine where
  books := symbols.foldr (fun sym books => books.insert sym (OrderBook.init sym)) ∅
  validSymbols := symbols.toFinset

/-- `MatchingEngine::registerSymbol`; `none` when it returns false. -/
def registerSymbol (e : MatchingEngine) (symbol : String) : Option MatchingEngine :=
  if symbol.isEmpty || symbol.utf8ByteSize > 8 then none
  else if !(symbol.toList.all Char.isAlphanum) then none
  else if symbol ∈ e.validSymbols then none
  else some
    { validSymbols := insert symbol e.validSymbols
      -- `emplace` keeps a book that is already there
      books := if symbol ∈ e.books then e.books
        else e.books.insert symbol (OrderBook.init symbol) }

/-- `MatchingEngine::isValidSymbol`. -/
def isValidSymbol (e : MatchingEngine) (symbol : String) : Bool := decide (symbol ∈ e.validSymbols)

/-- `MatchingEngine::restoreOrder`. -/
def restoreOrder (e : MatchingEngine) (order : Order) : MatchingEngine :=
  match e.books.lookup order.symbol with
  | none => e
  | some book => { e with books := e.books.insert order.symbol (book.restore order) }

/-- One item processed by `run`.  There is no result when the book is missing: `book_for`
then dereferences the end iterator. -/
def process (e : MatchingEngine) (item : WorkItem) : Option (MatchingEngine × List Callback) :=
  (e.books.lookup item.symbol).map fun book =>
    let (book', callbacks) := processIn book item
    ({ e with books := e.books.insert item.symbol book' }, callbacks)

/-- **What processing an item does**: it replaces the book of its symbol by what the item
makes of it. -/
lemma process_eq_some {e e' : MatchingEngine} {item : WorkItem} {cbs : List Callback} :
    e.process item = some (e', cbs) ↔
      ∃ book, e.books.lookup item.symbol = some book ∧ cbs = (processIn book item).2 ∧
        e' = { e with books := e.books.insert item.symbol (processIn book item).1 } := by
  simp only [process, Option.map_eq_some_iff, Prod.mk.injEq]
  constructor
  · rintro ⟨book, hbook, rfl, rfl⟩
    exact ⟨book, hbook, rfl, rfl⟩
  · rintro ⟨book, hbook, rfl, rfl⟩
    exact ⟨book, hbook, rfl, rfl⟩

end MatchingEngine

end FixExchange
