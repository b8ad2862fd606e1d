/-
# The persistence layer

A model of `src/persistence/PersistenceLayer.cpp`: the queue of events, the three tables, and
what applying an event does to them.  A table is the list of its rows in `rowid` order; each
statement is executed as written.  Timestamps are left out.

A text is bound up to its first NUL.  Only the client order ids, which the clients choose, can have
one: the exchange makes up its own ids, and the names of the symbols and of the clients come from
those who run it.
-/
import FixExchange.Engine.Order
import Mathlib.Data.List.TakeWhile

namespace FixExchange

/-- `persistence::PersistenceEvent`, with the fields that its type uses. -/
inductive PersistenceEvent
  | rested (order : Order) (leavesQty : ℤ)
  | fill (fill : Fill)
  | takerFill (fill : Fill)
  | cancel (exchangeId : String) (order : Order)
  | replace (req : ReplaceRequest) (leavesQty : ℤ)
  | symbol (symbol : String)
deriving DecidableEq, Repr

/-- A row of the table `resting_orders`, whose primary key is `exchangeId`. -/
structure RestingRow where
  exchangeId : String
  clordId : String
  clientId : String
  symbol : String
  side : Char
  price : Price
  leavesQty : ℤ
deriving DecidableEq, Repr

/-- A row of the table `events`. -/
structure EventRow where
  type : String
  exchangeId : String
  clordId : Option String := none
  clientId : Option String := none
  symbol : Option String := none
  side : Option Char := none
  price : Option Price := none
  qty : Option ℤ := none
  leavesQty : Option ℤ := none
deriving DecidableEq, Repr

/-- The tables of the database. -/
structure Database where
  restingOrders : List RestingRow
  events : List EventRow
  symbols : List String
deriving DecidableEq, Repr

/-- `sqlite3_bind_text` of `c_str()` with the length `-1`: the text up to its first NUL. -/
def boundText (text : String) : String := String.ofList (text.toList.takeWhile fun c => c ≠ '\x00')

lemma boundText_eq_iff {text : String} : boundText text = text ↔ '\x00' ∉ text.toList := by
  have hall : boundText text = text ↔ ∀ c ∈ text.toList, decide (c ≠ '\x00') = true := by
    rw [boundText, ← String.toList_inj, String.toList_ofList]
    exact List.takeWhile_eq_self_iff
  rw [hall]
  constructor
  · intro h hmem
    exact absurd (h _ hmem) (by simp)
  · intro h c hc
    refine decide_eq_true ?_
    rintro rfl
    exact h hc

namespace Database

/-- The tables that `initSchema` creates in an empty database. -/
def empty : Database := ⟨[], [], []⟩

/-- `DELETE FROM resting_orders WHERE exchange_id = ?`. -/
def deleteResting (db : Database) (id : String) : Database :=
  { db with restingOrders := db.restingOrders.filter fun row => row.exchangeId ≠ id }

/-- `INSERT OR REPLACE INTO resting_orders`: a row with the same key is deleted first. -/
def insertResting (db : Database) (row : RestingRow) : Database :=
  { db with
    restingOrders :=
      (db.restingOrders.filter fun row' => row'.exchangeId ≠ row.exchangeId) ++ [row] }

/-- `UPDATE resting_orders SET … WHERE exchange_id = ?`. -/
def updateResting (db : Database) (id : String) (f : RestingRow → RestingRow) : Database :=
  { db with
    restingOrders := db.restingOrders.map fun row => if row.exchangeId = id then f row else row }

/-- `INSERT INTO events`. -/
def insertEvent (db : Database) (row : EventRow) : Database :=
  { db with events := db.events ++ [row] }

/-- The event row of a fill. -/
def fillRow (type : String) (f : Fill) : EventRow where
  type := type
  exchangeId := f.exchangeId
  clordId := some (boundText f.clordId)
  clientId := some f.clientId
  symbol := some f.symbol
  side := some f.side
  price := some f.price
  qty := some f.qty
  leavesQty := some f.leavesQty

/-- The event row of an order. -/
def orderRow (type exchangeId : String) (o : Order) (leavesQty : ℤ) : EventRow where
  type := type
  exchangeId := exchangeId
  clordId := some (boundText o.clordId)
  clientId := some o.clientId
  symbol := some o.symbol
  side := some o.side
  price := some o.price
  qty := some o.qty
  leavesQty := some leavesQty

/-- `PersistenceLayer::applyEvent`. -/
def applyEvent (db : Database) : PersistenceEvent → Database
  | .rested o leavesQty =>
    (db.insertResting
        ⟨o.exchangeId, boundText o.clordId, o.clientId, o.symbol, o.side, o.price, leavesQty⟩)
      |>.insertEvent (orderRow "rested" o.exchangeId o leavesQty)
  | .fill f =>
    (if f.leavesQty > 0 then
        db.updateResting f.exchangeId fun row => { row with leavesQty := f.leavesQty }
      else db.deleteResting f.exchangeId)
      |>.insertEvent (fillRow "fill" f)
  | .takerFill f => db.insertEvent (fillRow "taker_fill" f)
  | .cancel id o => (db.deleteResting id).insertEvent (orderRow "cancel" id o 0)
  | .replace req leavesQty =>
    (if leavesQty > 0 then
        db.updateResting req.origOrderId fun row =>
          { row with
            clordId := boundText req.newClordId
            price := req.newPrice
            leavesQty := leavesQty }
      else db.deleteResting req.origOrderId)
      |>.insertEvent
        { type := "replace"
          exchangeId := req.origOrderId
          clordId := some (boundText req.newClordId)
          price := some req.newPrice
          qty := some req.newQty
          leavesQty := some leavesQty }
  | .symbol s => if s ∈ db.symbols then db else { db with symbols := db.symbols ++ [s] }

end Database

/-- `persistence::PersistenceLayer`: the events that are still to be applied, and the
database. -/
structure PersistenceLayer where
  queue : List PersistenceEvent
  db : Database
deriving DecidableEq, Repr

/-- A finished order, as the history has it. -/
structure HistoricalFill where
  /-- `'2'` for a fill, `'4'` for a cancel. -/
  execType : Char
  exchangeId : String
  clordId : String
  symbol : String
  side : Char
  price : Price
  qty : ℤ
deriving DecidableEq, Repr

/-- `CAST(… AS INTEGER)` of a text: the number that the text begins with, zero when there is
none. -/
def castInteger (text : List Char) : ℤ :=
  let digits (cs : List Char) : ℤ := Nat.ofDigitChars 10 (cs.takeWhile Char.isDigit) 0
  match text.dropWhile Char.isWhitespace with
  | '-' :: cs => -digits cs
  | '+' :: cs => digits cs
  | cs => digits cs

namespace PersistenceLayer

/-- A persistence layer on an existing database. -/
def load (db : Database) : PersistenceLayer := ⟨[], db⟩

/-- A persistence layer on an empty database. -/
def empty : PersistenceLayer := ⟨[], Database.empty⟩

/-- `PersistenceLayer::push`. -/
def push (p : PersistenceLayer) (evt : PersistenceEvent) : PersistenceLayer :=
  { p with queue := p.queue ++ [evt] }

/-- The persistence thread applies the first event of the queue. -/
def applyNext (p : PersistenceLayer) : Option PersistenceLayer :=
  match p.queue with
  | [] => none
  | evt :: queue => some ⟨queue, p.db.applyEvent evt⟩

/-- The database once every pushed event has been applied. -/
def flushed (p : PersistenceLayer) : Database := p.queue.foldl Database.applyEvent p.db

@[simp] lemma flushed_push (p : PersistenceLayer) (evt : PersistenceEvent) :
    (p.push evt).flushed = p.flushed.applyEvent evt := by
  simp [flushed, push]

/-- Applying an event does not change what the database will be. -/
lemma flushed_applyNext {p p' : PersistenceLayer} (h : p.applyNext = some p') :
    p'.flushed = p.flushed := by
  unfold applyNext at h
  split at h
  · simp at h
  · rename_i evt queue hq
    obtain rfl := Option.some.inj h
    rw [flushed, flushed, hq]
    rfl

lemma applyNext_eq_some {p p' : PersistenceLayer} (h : p.applyNext = some p') :
    ∃ evt, p.queue = evt :: p'.queue ∧ p'.db = p.db.applyEvent evt := by
  unfold applyNext at h
  split at h
  · exact absurd h (by simp)
  · rename_i evt queue hq
    obtain rfl := Option.some.inj h
    exact ⟨evt, hq, rfl⟩

/-! ## Recovery reads -/

/-- `PersistenceLayer::loadSymbols`. -/
def loadSymbols (p : PersistenceLayer) : List String := p.db.symbols

/-- The order of a row of `resting_orders`; all resting orders are limit orders. -/
def restoredOrder (row : RestingRow) : Order where
  clordId := row.clordId
  exchangeId := row.exchangeId
  clientId := row.clientId
  symbol := row.symbol
  side := row.side
  type := '2'
  price := row.price
  qty := row.leavesQty
  leavesQty := row.leavesQty

/-- `PersistenceLayer::loadRestingOrders`; the rows come in `rowid` order. -/
def loadRestingOrders (p : PersistenceLayer) : List Order := p.db.restingOrders.map restoredOrder

/-- `PersistenceLayer::loadMaxOrderSeq`: the largest number behind the first five characters
of an id. -/
def loadMaxOrderSeq (p : PersistenceLayer) : ℤ :=
  (p.db.restingOrders.map fun row => castInteger (row.exchangeId.toList.drop 5)).max?.getD 0

/-- `PersistenceLayer::loadHistoricalFills`. -/
def loadHistoricalFills (p : PersistenceLayer) (clientId : String) : List HistoricalFill :=
  p.db.events.filterMap fun row =>
    match row.clordId with
    | none => none
    | some clordId =>
      if row.type ∈ ["fill", "taker_fill", "cancel"] ∧ row.clientId = some clientId ∧
          row.leavesQty = some 0 ∧ clordId ≠ "" then
        some
          { execType := if row.type = "cancel" then '4' else '2'
            exchangeId := row.exchangeId
            clordId := clordId
            symbol := row.symbol.getD ""
            side := row.side.getD '1'
            price := row.price.getD 0
            qty := row.qty.getD 0 }
      else none

end PersistenceLayer

end FixExchange
