/-
# Messages to the clients

A model of the messages that `src/gateway/MessageFactory.h` and `FixGateway.cpp` build about
orders.  A message is the record of the fields that are set.
-/
import FixExchange.Engine.Order

namespace FixExchange

/-- `gateway::ExecType`. -/
inductive ExecType
  | New | PartFill | Fill | Canceled | Replaced | Rejected | OrderStatus
deriving DecidableEq, Repr

/-- The character of an execution type on the wire. -/
def ExecType.char : ExecType → Char
  | .New => '0'
  | .PartFill => '1'
  | .Fill => '2'
  | .Canceled => '4'
  | .Replaced => '5'
  | .Rejected => '8'
  | .OrderStatus => 'I'

/-- An execution report. -/
structure ExecutionReport where
  orderId : String
  execId : String
  execTransType : Char := '0'
  execType : Char
  ordStatus : Char
  symbol : String
  side : Char
  leavesQty : ℤ
  cumQty : ℤ
  avgPx : Price
  clOrdId : String
  orderQty : ℤ
  price : Option Price
  lastShares : Option ℤ := none
  origClOrdId : Option String := none
  text : Option String := none
deriving DecidableEq, Repr

/-- An order cancel reject. -/
structure OrderCancelReject where
  orderId : String
  clOrdId : String
  origClOrdId : String
  ordStatus : Char := '8'
  cxlRejResponseTo : Char := '2'
  text : String
deriving DecidableEq, Repr

/-- A message about an order, to a client. -/
inductive ClientMessage
  | execReport (report : ExecutionReport)
  | cancelReject (reject : OrderCancelReject)
deriving DecidableEq, Repr

/-- `make_exec_report` for an order, without a fill. -/
def makeExecReport (order : Order) (execType : ExecType) : ExecutionReport where
  orderId := order.exchangeId
  execId := order.exchangeId ++ "-ACK"
  execType := execType.char
  ordStatus := execType.char
  symbol := order.symbol
  side := order.side
  leavesQty := order.qty
  cumQty := 0
  avgPx := 0
  clOrdId := order.clordId
  orderQty := order.qty
  price := if order.type = '2' then some order.price else none

/-- `make_exec_report` for a fill. -/
def makeFillReport (fill : Fill) (execType : ExecType) : ExecutionReport where
  orderId := fill.exchangeId
  execId := fill.execId
  execType := execType.char
  ordStatus := execType.char
  symbol := fill.symbol
  side := fill.side
  leavesQty := fill.leavesQty
  cumQty := fill.orderQty - fill.leavesQty
  avgPx := fill.price
  clOrdId := fill.clordId
  orderQty := fill.orderQty
  price := if fill.orderType = '2' then some fill.limitPrice else none
  lastShares := some fill.qty

/-- `make_tif_cancel_report`. -/
def makeTifCancelReport (order : Order) : ExecutionReport where
  orderId := order.exchangeId
  execId := order.exchangeId ++ "-TIF"
  execType := ExecType.Canceled.char
  ordStatus := ExecType.Canceled.char
  symbol := order.symbol
  side := order.side
  leavesQty := 0
  cumQty := order.qty - order.leavesQty
  avgPx := 0
  clOrdId := order.clordId
  orderQty := order.qty
  price := if order.type = '2' then some order.price else none

/-- `make_order_status_report`. -/
def makeOrderStatusReport (order : Order) : ExecutionReport where
  orderId := order.exchangeId
  execId := order.exchangeId ++ "-STATUS"
  execType := ExecType.OrderStatus.char
  ordStatus := if order.leavesQty < order.qty then '1' else '0'
  symbol := order.symbol
  side := order.side
  leavesQty := order.leavesQty
  cumQty := order.qty - order.leavesQty
  avgPx := 0
  clOrdId := order.clordId
  orderQty := order.qty
  price := if order.type = '2' then some order.price else none

/-- `make_cancel_reject`. -/
def makeCancelReject (clOrdId origClOrdId exchangeId reason : String) : OrderCancelReject where
  orderId := exchangeId
  clOrdId := clOrdId
  origClOrdId := origClOrdId
  text := reason

end FixExchange
