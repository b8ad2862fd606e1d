/-
# The FIX gateway

A model of `src/gateway/FixGateway.cpp`.  Two threads run its code: the QuickFIX thread runs
the message handlers, one message at a time, and the engine thread runs the callbacks of the
engine.  What the threads share -- the three maps and the last trade prices -- is only used in
sections that hold a mutex.  The code is therefore cut at the sections: a handler that has
passed a section waits at a program point (`Handler`), and a callback is a sequence of tasks
(`Task`), each of which is one section together with the code up to the next one.
-/
import FixExchange.Engine.MatchingEngine
import FixExchange.Gateway.MessageFactory
import FixExchange.MarketData.MarketDataPublisher
import FixExchange.Persistence.PersistenceLayer
import FixExchange.Risk.RiskEngine

namespace FixExchange

/-- `FIX::SessionID`. -/
structure SessionID where
  beginString : String
  senderCompID : String
  targetCompID : String
deriving DecidableEq, Repr

/-- `emplace` of a hash map: an entry that is already there is kept. -/
def StrMap.emplace {α : Type} (m : StrMap α) (key : String) (value : α) : StrMap α :=
  if key ∈ m then m else m.insert key value

/-- `gateway::FixGateway`, with the messages it has sent. -/
structure FixGateway where
  risk : RiskEngine
  publisher : MarketDataPublisher
  persistence : Option PersistenceLayer
  orderSeq : ℕ
  /-- The session of an order, by exchange id. -/
  orderSessions : StrMap SessionID
  /-- The exchange id of an order, by the id its client gave it. -/
  clordToExchange : StrMap String
  /-- The open orders, by exchange id. -/
  activeOrders : StrMap Order
  sent : List (SessionID × ClientMessage)

/-- A `NewOrderSingle`; the quantity and the price are the values of the `double`s that they are
read into. -/
structure NewOrderSingle where
  clOrdID : String
  symbol : String
  side : Char
  ordType : Char
  orderQty : ℚ
  price : Option Price := none
  timeInForce : Option Char := none
deriving DecidableEq, Repr

/-- The price that an order for the message has. -/
def NewOrderSingle.limitPrice (msg : NewOrderSingle) : Price :=
  if msg.ordType = '2' then msg.price.getD 0 else 0

/-- The time in force that an order for the message has: other values than immediate or
cancel and fill or kill are dropped. -/
def NewOrderSingle.tif (msg : NewOrderSingle) : Char :=
  if msg.timeInForce = some '3' then '3' else if msg.timeInForce = some '4' then '4' else '0'

/-- An `OrderCancelRequest`. -/
structure OrderCancelRequest where
  origClOrdID : String
  symbol : String
deriving DecidableEq, Repr

/-- An `OrderCancelReplaceRequest`. -/
structure OrderCancelReplaceRequest where
  clOrdID : String
  origClOrdID : String
  symbol : String
  side : Char
  ordType : Char
  orderQty : ℚ
  price : Option Price := none
deriving DecidableEq, Repr

/-- Where the QuickFIX thread is in a message handler: what it does in the next section. -/
inductive Handler
  /-- Between two messages. -/
  | idle
  /-- Enter an accepted order in the routing maps. -/
  | route (order : Order) (session : SessionID)
  /-- Enter it in the open orders, and acknowledge it. -/
  | activate (order : Order) (session : SessionID)
  /-- Submit it to the engine. -/
  | submit (order : Order)
  /-- Pass a cancel request on to the engine. -/
  | cancel (req : CancelRequest)
  /-- Pass a replace request on to the engine. -/
  | replace (req : ReplaceRequest)
deriving DecidableEq, Repr

/-- A section of a callback, with the code up to the next section. -/
inductive Task
  /-- The section of `send_fill` on the routing maps. -/
  | fillRouting (fill : Fill)
  /-- The section of `send_fill` on the open orders, and the report. -/
  | fillOrders (fill : Fill) (session : SessionID)
  /-- The rest of `onFill`. -/
  | fillDone (maker taker : Fill)
  | onCancel (req : CancelRequest) (found : Bool)
  | onTIFCancel (order : Order)
  | onReplace (req : ReplaceRequest) (found : Bool) (newLeavesQty : ℤ)
  | onOrderRested (order : Order) (leavesQty : ℤ)
deriving DecidableEq, Repr

/-- The tasks of a callback. -/
def Callback.tasks : Callback → List Task
  | .onFill maker taker => [.fillRouting maker, .fillRouting taker, .fillDone maker taker]
  | .onCancel req found => [.onCancel req found]
  | .onTIFCancel order => [.onTIFCancel order]
  | .onReplace req found newLeavesQty => [.onReplace req found newLeavesQty]
  | .onOrderRested order leavesQty => [.onOrderRested order leavesQty]

/-- The exchange id of the `n`-th order. -/
def exchangeId (n : ℕ) : String := "EXCH-" ++ toString n

/-- `static_cast<int>` of a number: the fraction is dropped, and a number that does not fit
becomes the smallest `int`. -/
def castInt (x : ℚ) : ℤ :=
  let n := if x < 0 then ⌈x⌉ else ⌊x⌋
  if -2147483648 ≤ n ∧ n ≤ 2147483647 then n else -2147483648

lemma castInt_of_pos {x : ℚ} (h : 0 ≤ x) (hmax : x ≤ 2147483647) : castInt x = ⌊x⌋ := by
  have h0 : 0 ≤ ⌊x⌋ := Int.floor_nonneg.mpr h
  have hle : ⌊x⌋ ≤ 2147483647 := by
    have : (⌊x⌋ : ℚ) ≤ 2147483647 := (Int.floor_le x).trans hmax
    exact_mod_cast this
  rw [castInt, if_neg (not_lt.mpr h), if_pos ⟨by omega, hle⟩]

lemma castInt_nonneg {x : ℚ} (h : 0 ≤ x) (hmax : x ≤ 2147483647) : 0 ≤ castInt x := by
  rw [castInt_of_pos h hmax]
  exact Int.floor_nonneg.mpr h

/-- `make_historical_fill_report`. -/
def makeHistoricalFillReport (f : HistoricalFill) : ExecutionReport where
  orderId := f.exchangeId
  execId := f.exchangeId ++ "-HIST"
  execType := f.execType
  ordStatus := f.execType
  symbol := f.symbol
  side := f.side
  leavesQty := 0
  cumQty := if f.execType = '2' then f.qty else 0
  avgPx := if f.execType = '2' then f.price else 0
  clOrdId := f.clordId
  orderQty := f.qty
  price := if f.price > 0 then some f.price else none
  lastShares := if f.execType = '2' then some f.qty else none

namespace FixGateway

/-- The constructor. -/
def init (risk : RiskConfig) (persistence : Option PersistenceLayer) : FixGateway where
  risk := ⟨risk, ∅⟩
  publisher := MarketDataPublisher.init
  persistence := persistence
  orderSeq := 0
  orderSessions := ∅
  clordToExchange := ∅
  activeOrders := ∅
  sent := []

/-- `FixGateway::restoreOrders`: the orders have no session until their clients log on. -/
def restoreOrders (g : FixGateway) (orders : List Order) (maxSeq : ℤ) : FixGateway :=
  { g with
    activeOrders := orders.foldl
      (fun active order => StrMap.emplace active order.exchangeId order) g.activeOrders
    clordToExchange := orders.foldl
      (fun ids order => StrMap.emplace ids order.clordId order.exchangeId) g.clordToExchange
    orderSeq := if maxSeq > 0 then maxSeq.toNat else g.orderSeq }

/-- `FIX::Session::sendToTarget`. -/
def sendToTarget (g : FixGateway) (message : ClientMessage) (session : SessionID) : FixGateway :=
  { g with sent := g.sent ++ [(session, message)] }

/-- `persistence_->push`, when there is a persistence layer. -/
def persist (g : FixGateway) (evt : PersistenceEvent) : FixGateway :=
  { g with persistence := g.persistence.map fun p => p.push evt }

/-! ## Message handlers -/

/-- Refuse a new order. -/
def rejectOrder (g : FixGateway) (order : Order) (text : String) (session : SessionID) :
    FixGateway × Handler :=
  (g.sendToTarget (.execReport { makeExecReport order .Rejected with text := some text }) session,
    .idle)

/-- `onMessage(NewOrderSingle)` up to the routing section.  The quantity and the price of the
order are uninitialised in the source until they are set, and read as zero here.  A limit
order without a price ends the handler with an exception. -/
def onNewOrderSingle (g : FixGateway) (engine : MatchingEngine) (msg : NewOrderSingle)
    (session : SessionID) : FixGateway × Handler :=
  let g := { g with orderSeq := g.orderSeq + 1 }
  let order : Order :=
    { clordId := msg.clOrdID
      exchangeId := exchangeId g.orderSeq
      clientId := session.targetCompID
      symbol := msg.symbol
      side := msg.side
      type := msg.ordType
      price := 0
      qty := 0
      leavesQty := 0 }
  if msg.orderQty ≤ 0 ∨ msg.orderQty > 2147483647 then
    g.rejectOrder order "Invalid order qty" session
  else
    let order := { order with qty := castInt msg.orderQty, leavesQty := castInt msg.orderQty }
    if order.type = '2' ∧ msg.price = none then (g, .idle)
    else if order.type = '2' ∧ msg.price.getD 0 ≤ 0 then
      g.rejectOrder order "Invalid price" session
    else
      let order := { order with price := msg.limitPrice, tif := msg.tif }
      if !engine.isValidSymbol order.symbol then g.rejectOrder order "Unknown symbol" session
      else
        let reason := g.risk.check order.symbol order.type order.side order.qty order.price
        if reason ≠ "" then g.rejectOrder order reason session
        else (g, .route order session)

/-- The routing section of `onMessage(NewOrderSingle)`. -/
def routeOrder (g : FixGateway) (order : Order) (session : SessionID) : FixGateway :=
  { g with
    orderSessions := g.orderSessions.emplace order.exchangeId session
    clordToExchange := g.clordToExchange.emplace order.clordId order.exchangeId }

/-- The section of `onMessage(NewOrderSingle)` on the open orders. -/
def activateOrder (g : FixGateway) (order : Order) : FixGateway :=
  { g with activeOrders := g.activeOrders.emplace order.exchangeId order }

/-- The acknowledgement of a new order. -/
def ackOrder (g : FixGateway) (order : Order) (session : SessionID) : FixGateway :=
  g.sendToTarget (.execReport (makeExecReport order .New)) session

/-- `onMessage(OrderCancelRequest)` up to the call of the engine. -/
def onOrderCancelRequest (g : FixGateway) (msg : OrderCancelRequest) (session : SessionID) :
    FixGateway × Handler :=
  match g.clordToExchange.lookup msg.origClOrdID with
  | none => (g, .idle)
  | some id =>
    (g, .cancel { origOrderId := id, clientId := session.targetCompID, symbol := msg.symbol })

/-- The request that `onMessage(OrderCancelReplaceRequest)` makes of a message with this
price, before it is resolved. -/
def replaceRequest (msg : OrderCancelReplaceRequest) (price : Price) (session : SessionID) :
    ReplaceRequest where
  origOrderId := ""
  oldClordId := msg.origClOrdID
  newClordId := msg.clOrdID
  clientId := session.targetCompID
  symbol := msg.symbol
  side := msg.side
  newPrice := price
  newQty := castInt msg.orderQty

/-- `onMessage(OrderCancelReplaceRequest)` up to the call of the engine.  A message without a
price ends the handler with an exception. -/
def onOrderCancelReplaceRequest (g : FixGateway) (msg : OrderCancelReplaceRequest)
    (session : SessionID) : FixGateway × Handler :=
  match msg.price with
  | none => (g, .idle)
  | some price =>
    let req := replaceRequest msg price session
    match g.clordToExchange.lookup req.oldClordId with
    | none =>
      (g.sendToTarget (.cancelReject
        (makeCancelReject req.newClordId req.oldClordId "UNKNOWN" "Unknown order")) session, .idle)
    | some id =>
      let req := { req with origOrderId := id }
      match g.activeOrders.lookup id with
      | none => (g, .replace req)
      | some existing =>
        if existing.symbol ≠ req.symbol ∨ existing.side ≠ req.side then
          (g.sendToTarget (.cancelReject (makeCancelReject req.newClordId req.oldClordId
            req.origOrderId "Cannot change symbol or side")) session, .idle)
        else (g, .replace req)

/-- The open orders of a client. -/
def ordersOf (g : FixGateway) (clientId : String) : List Order :=
  (g.activeOrders.entries.map Sigma.snd).filter fun order => order.clientId = clientId

/-- The status reports that `onLogon` sends. -/
def statusReports (g : FixGateway) (session : SessionID) : List ExecutionReport :=
  (g.ordersOf session.targetCompID).map makeOrderStatusReport

/-- The reports about finished orders that `onLogon` sends. -/
def historicalReports (g : FixGateway) (session : SessionID) : List ExecutionReport :=
  match g.persistence with
  | none => []
  | some p => (p.loadHistoricalFills session.targetCompID).map makeHistoricalFillReport

/-- `FixGateway::onLogon`. -/
def onLogon (g : FixGateway) (session : SessionID) : FixGateway :=
  { g with
    orderSessions := (g.ordersOf session.targetCompID).foldl
      (fun sessions order => sessions.emplace order.exchangeId session) g.orderSessions
    sent := g.sent ++ (g.statusReports session ++ g.historicalReports session).map
      fun report => (session, .execReport report) }

/-! ## Callbacks of the engine -/

/-- The section of `send_fill` on the routing maps; the session when there is one. -/
def fillRouting (g : FixGateway) (fill : Fill) : FixGateway × Option SessionID :=
  match g.orderSessions.lookup fill.exchangeId with
  | none => (g, none)
  | some session =>
    if fill.leavesQty = 0 then
      ({ g with
          orderSessions := g.orderSessions.erase fill.exchangeId
          clordToExchange := g.clordToExchange.erase fill.clordId }, some session)
    else (g, some session)

/-- Change the open quantity of an open order, or drop the order. -/
def setLeaves (orders : StrMap Order) (id : String) (leavesQty : ℤ) : StrMap Order :=
  if leavesQty = 0 then orders.erase id
  else
    match orders.lookup id with
    | none => orders
    | some order => orders.insert id (order.withLeaves leavesQty)

/-- The section of `send_fill` on the open orders, and the report. -/
def fillOrders (g : FixGateway) (fill : Fill) (session : SessionID) : FixGateway :=
  { g with activeOrders := setLeaves g.activeOrders fill.exchangeId fill.leavesQty }
    |>.sendToTarget (.execReport
      (makeFillReport fill (if fill.leavesQty = 0 then .Fill else .PartFill))) session

/-- `FixGateway::onFill` after the two reports. -/
def fillDone (g : FixGateway) (maker taker : Fill) : FixGateway :=
  ({ g with
      risk := g.risk.onTrade maker.symbol maker.price
      publisher := g.publisher.onFill maker }.persist (.fill maker)).persist (.takerFill taker)

/-- `FixGateway::onCancel`. -/
def onCancel (g : FixGateway) (req : CancelRequest) (found : Bool) : FixGateway :=
  match g.orderSessions.lookup req.origOrderId, g.activeOrders.lookup req.origOrderId with
  | some session, some order =>
    if found then
      { g with
        orderSessions := g.orderSessions.erase req.origOrderId
        activeOrders := g.activeOrders.erase req.origOrderId
        clordToExchange := g.clordToExchange.erase order.clordId
        publisher := g.publisher.onCancel order }
        |>.sendToTarget (.execReport (makeExecReport order .Canceled)) session
        |>.persist (.cancel req.origOrderId order)
    else g
  | _, _ => g

/-- An open order as a replace leaves it. -/
def replaced (order : Order) (req : ReplaceRequest) (newLeavesQty : ℤ) : Order :=
  { order with
    clordId := req.newClordId
    price := req.newPrice
    qty := req.newQty
    leavesQty := max 0 newLeavesQty }

/-- `FixGateway::onReplace`. -/
def onReplace (g : FixGateway) (req : ReplaceRequest) (found : Bool) (newLeavesQty : ℤ) :
    FixGateway :=
  match g.orderSessions.lookup req.origOrderId, g.activeOrders.lookup req.origOrderId with
  | some session, some existing =>
    if found then
      let order := replaced existing req newLeavesQty
      { g with
        clordToExchange :=
          StrMap.emplace (g.clordToExchange.erase req.oldClordId) req.newClordId req.origOrderId
        orderSessions :=
          if newLeavesQty = 0 then g.orderSessions.erase req.origOrderId else g.orderSessions
        activeOrders :=
          if newLeavesQty = 0 then g.activeOrders.erase req.origOrderId
          else g.activeOrders.insert req.origOrderId order
        publisher := g.publisher.onReplace req newLeavesQty existing.price }
        |>.sendToTarget (.execReport
          { makeExecReport order .Replaced with origClOrdId := some req.oldClordId }) session
        |>.persist (.replace req (max 0 newLeavesQty))
    else
      g.sendToTarget (.cancelReject (makeCancelReject req.newClordId req.oldClordId
        req.origOrderId "Order not found in book")) session
  | _, _ => g

/-- `FixGateway::onTIFCancel`. -/
def onTIFCancel (g : FixGateway) (order : Order) : FixGateway :=
  match g.orderSessions.lookup order.exchangeId with
  | none => g
  | some session =>
    { g with
      orderSessions := g.orderSessions.erase order.exchangeId
      activeOrders := g.activeOrders.erase order.exchangeId
      clordToExchange := g.clordToExchange.erase order.clordId }
      |>.sendToTarget (.execReport (makeTifCancelReport order)) session

/-- `FixGateway::onOrderRested`. -/
def onOrderRested (g : FixGateway) (order : Order) (leavesQty : ℤ) : FixGateway :=
  { g with publisher := g.publisher.onNewOrder order leavesQty }.persist (.rested order leavesQty)

/-- Run a task; the tasks it leaves to be run before the others come along. -/
def runTask (g : FixGateway) : Task → FixGateway × List Task
  | .fillRouting fill =>
    ((g.fillRouting fill).1,
      match (g.fillRouting fill).2 with
      | none => []
      | some session => [.fillOrders fill session])
  | .fillOrders fill session => (g.fillOrders fill session, [])
  | .fillDone maker taker => (g.fillDone maker taker, [])
  | .onCancel req found => (g.onCancel req found, [])
  | .onTIFCancel order => (g.onTIFCancel order, [])
  | .onReplace req found newLeavesQty => (g.onReplace req found newLeavesQty, [])
  | .onOrderRested order leavesQty => (g.onOrderRested order leavesQty, [])

end FixGateway

end FixExchange
