/-
# The exchange

The gateway, the engine and the persistence layer of `src/main.cpp`, run by their threads: the
QuickFIX thread handles the messages of the clients, the engine thread works off the queue
and calls back into the gateway, the persistence thread applies the events, and the admin
thread registers symbols.  A state says where each thread is; a step lets one thread run to
the end of its next section.  A run is any interleaving of such steps.
-/
import FixExchange.Gateway.FixGateway
import FixExchange.Lib.Transition

namespace FixExchange

/-- The configuration of the exchange. -/
structure Config where
  symbols : List String
  risk : RiskConfig := {}
  /-- Whether a database path is configured. -/
  persistence : Bool := true

/-- The exchange: what the components hold, and where the threads are. -/
structure System where
  gateway : FixGateway
  engine : MatchingEngine
  /-- The queue of the engine. -/
  queue : List WorkItem
  /-- What the engine thread still has to do for the item it has taken from the queue. -/
  tasks : List Task
  /-- Where the QuickFIX thread is. -/
  handler : Handler

/-- A message of a client. -/
inductive Message
  | newOrder (msg : NewOrderSingle)
  | cancel (msg : OrderCancelRequest)
  | replace (msg : OrderCancelReplaceRequest)
deriving DecidableEq, Repr

/-- A step of the exchange. -/
inductive Action
  /-- The QuickFIX thread begins to handle a message. -/
  | message (msg : Message) (session : SessionID)
  /-- The QuickFIX thread handles a logon. -/
  | logon (session : SessionID)
  /-- The QuickFIX thread goes on with the message it is handling. -/
  | handle
  /-- The engine thread goes on with its tasks, or takes the next item from the queue. -/
  | engine
  /-- The persistence thread applies an event. -/
  | persist
  /-- The admin thread registers a symbol. -/
  | registerSymbol (symbol : String)
deriving DecidableEq, Repr

namespace System

/-- The exchange after its start on an empty database. -/
def start (cfg : Config) : System where
  gateway := FixGateway.init cfg.risk (if cfg.persistence then some PersistenceLayer.empty else none)
  engine := MatchingEngine.init cfg.symbols
  queue := []
  tasks := []
  handler := .idle

/-- `kQueueSize`; a ring buffer of this size holds one item less. -/
def queueSize : ℕ := 4096

/-- The handler of a message up to the end of its first section. -/
def onMessage (s : System) (session : SessionID) : Message → FixGateway × Handler
  | .newOrder msg => s.gateway.onNewOrderSingle s.engine msg session
  | .cancel msg => s.gateway.onOrderCancelRequest msg session
  | .replace msg => s.gateway.onOrderCancelReplaceRequest msg session

/-- Push an item on the queue of the engine, which has to have room for it. -/
def push (s : System) (item : WorkItem) : Option System :=
  if s.queue.length + 1 < queueSize then
    some { s with queue := s.queue ++ [item], handler := .idle }
  else none

/-- The QuickFIX thread goes on with the message it is handling. -/
def handle (s : System) : Option System :=
  match s.handler with
  | .idle => none
  | .route order session =>
    some { s with
      gateway := s.gateway.routeOrder order session
      handler := .activate order session }
  | .activate order session =>
    some { s with
      gateway := (s.gateway.activateOrder order).ackOrder order session
      handler := .submit order }
  | .submit order => s.push (.order order)
  | .cancel req => s.push (.cancel req)
  | .replace req => s.push (.replace req)

/-- The engine thread runs its next task, or takes the next item from the queue. -/
def engineStep (s : System) : Option System :=
  match s.tasks with
  | task :: tasks =>
    some { s with
      gateway := (s.gateway.runTask task).1
      tasks := (s.gateway.runTask task).2 ++ tasks }
  | [] =>
    match s.queue with
    | [] => none
    | item :: queue =>
      (s.engine.process item).map fun (engine, callbacks) =>
        { s with engine := engine, queue := queue, tasks := callbacks.flatMap Callback.tasks }

/-- One step of the exchange. -/
def step (s : System) : Action → Option System
  | .message msg session =>
    if s.handler = .idle then
      some { s with
        gateway := (s.onMessage session msg).1
        handler := (s.onMessage session msg).2 }
    else none
  | .logon session =>
    if s.handler = .idle then some { s with gateway := s.gateway.onLogon session } else none
  | .handle => s.handle
  | .engine => s.engineStep
  | .persist =>
    (s.gateway.persistence.bind PersistenceLayer.applyNext).map fun p =>
      { s with gateway := { s.gateway with persistence := some p } }
  | .registerSymbol symbol =>
    (s.engine.registerSymbol symbol).map fun engine =>
      { s with engine := engine, gateway := s.gateway.persist (.symbol symbol) }

/-- `RunTo cfg ok as s`: the actions `as` lead from the start to `s`, and each of them is
allowed by `ok`. -/
abbrev RunTo (cfg : Config) (ok : System → Action → Prop) (as : List Action) (s : System) : Prop :=
  Transition.Reaches step ok (start cfg) as s

/-- Every action is allowed. -/
def Any (_ : System) (_ : Action) : Prop := True

instance (s : System) (a : Action) : Decidable (s.Any a) := isTrue trivial

/-- No thread has anything left to do for the messages received so far. -/
structure Drained (s : System) : Prop where
  queue : s.queue = []
  tasks : s.tasks = []
  handler : s.handler = .idle

instance (s : System) : Decidable s.Drained :=
  decidable_of_iff (s.queue = [] ∧ s.tasks = [] ∧ s.handler = .idle)
    ⟨fun ⟨hq, ht, hh⟩ => ⟨hq, ht, hh⟩, fun ⟨hq, ht, hh⟩ => ⟨hq, ht, hh⟩⟩

end System

/-! ## Parts of example runs -/

namespace Sample

/-- The sessions of two clients. -/
def alice : SessionID := ⟨"FIX.4.2", "EXCHANGE", "A"⟩

@[inherit_doc alice]
def bob : SessionID := ⟨"FIX.4.2", "EXCHANGE", "B"⟩

/-- An exchange for one symbol. -/
def config : Config where
  symbols := ["X"]

/-- A limit order. -/
def limit (clOrdID : String) (side : Char) (qty : ℚ) (price : Price) : Message :=
  .newOrder
    { clOrdID := clOrdID
      symbol := "X"
      side := side
      ordType := '2'
      orderQty := qty
      price := some price }

/-- A replace request. -/
def replace (clOrdID origClOrdID : String) (side : Char) (qty : ℚ) (price : Price) : Message :=
  .replace
    { clOrdID := clOrdID
      origClOrdID := origClOrdID
      symbol := "X"
      side := side
      ordType := '2'
      orderQty := qty
      price := some price }

/-- A cancel request. -/
def cancel (origClOrdID : String) : Message :=
  .cancel { origClOrdID := origClOrdID, symbol := "X" }

/-- A new order is handled to the end. -/
def submit (msg : Message) (session : SessionID) : List Action :=
  [.message msg session, .handle, .handle, .handle]

/-- A request is handled to the end. -/
def forward (msg : Message) (session : SessionID) : List Action := [.message msg session, .handle]

/-- The engine thread runs for some sections. -/
def engine (n : ℕ) : List Action := List.replicate n .engine

end Sample

end FixExchange
