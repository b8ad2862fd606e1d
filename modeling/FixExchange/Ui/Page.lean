/-
# What the page keeps of the market

The tabs, the book, the tape and the charts of `ui/static/index.html`: how the page takes them over
from a `snapshot` message, and how it keeps them up with the messages about packets.  A page that
has what the server has still has it behind the messages about a packet (`Agrees.receive`), and it
gets it from a snapshot whatever it had before (`Agrees.snapshot`).  The times of its charts
increase strictly, whatever its clock says (`Page.Timed.process`).
-/
import FixExchange.Ui.Startup

namespace FixExchange

/-- No side of a book has more than ten levels. -/
def Subscriber.Short (s : Subscriber) : Prop :=
  ∀ e ∈ s.orderBook.entries, e.2.bids.keys.length ≤ 10 ∧ e.2.asks.keys.length ≤ 10

instance (s : Subscriber) : Decidable s.Short := inferInstanceAs (Decidable (∀ _ ∈ _, _))

namespace FixClient

/-- A trade on the tape of the page. -/
structure TapeTrade where
  symbol : String
  price : Price
  qty : ℤ
deriving DecidableEq, Repr

/-- What the page keeps of the market. -/
structure Page extends Browser where
  symbols : List String
  trades : List TapeTrade
  tradeHistory : StrMap (List TradePoint)
  lastTradeTime : StrMap ℚ

/-- The whole `snapshot` message of `websocket_endpoint`. -/
structure PageSnapshot extends SnapshotMessage where
  symbols : List String
  tradeHistory : List (String × List TradePoint)

/-- The message about a packet. -/
structure MdMessage where
  evt : EventType
  side : Char
  symbol : String
  price : Price
  qty : ℤ
  eid : String
deriving DecidableEq

/-- A message to the page. -/
inductive PageMessage
  | snapshot (msg : PageSnapshot)
  | symbols (symbols : List String)
  | md (msg : MdMessage)

namespace Page

/-- The page when it has been loaded. -/
def init : Page where
  toBrowser := .init
  symbols := []
  trades := []
  tradeHistory := ∅
  lastTradeTime := ∅

/-- One entry of `trade_history` in a snapshot. -/
def setHistory (p : Page) (e : String × List TradePoint) : Page :=
  { p with
    tradeHistory := p.tradeHistory.insert e.1 e.2
    lastTradeTime :=
      match e.2.getLast? with
      | some point => p.lastTradeTime.insert e.1 point.time
      | none => p.lastTradeTime }

/-- The tabs and the book of a snapshot. -/
def seed (p : Page) (msg : PageSnapshot) : Page :=
  { p with toBrowser := p.toBrowser.onSnapshot msg.toSnapshotMessage, symbols := msg.symbols }

/-- `onSnapshot`. -/
def onSnapshot (p : Page) (msg : PageSnapshot) : Page :=
  msg.tradeHistory.foldl setHistory (p.seed msg)

/-- One round of the loop of `onSymbols`. -/
def addSymbol (p : Page) (symbol : String) : Page :=
  if symbol ∈ p.symbols then p
  else { p with toBrowser := p.toBrowser.enterSymbol symbol, symbols := p.symbols ++ [symbol] }

/-- `onSymbols`. -/
def onSymbols (p : Page) (symbols : List String) : Page := symbols.foldl addSymbol p

/-- `nextTradeTime`, at a time of the clock. -/
def nextTradeTime (p : Page) (now : ℚ) (symbol : String) : ℚ :=
  max now ((p.lastTradeTime.lookup symbol).getD 0 + 1 / 1000)

/-- `trades.unshift(...)`, and `trades.pop()` when there are more than 30. -/
def addTrade (p : Page) (t : TapeTrade) : Page :=
  let trades := t :: p.trades
  { p with trades := if trades.length > 30 then trades.dropLast else trades }

/-- The name is one that every object has, and no snapshot has entered a chart under it: what the
page finds there is no list. -/
def Barred (p : Page) (symbol : String) : Prop :=
  symbol ∈ Browser.inherited ∧ symbol ∉ p.tradeHistory

instance (p : Page) (symbol : String) : Decidable (p.Barred symbol) :=
  inferInstanceAs (Decidable (_ ∧ ¬ _))

/-- A trade gets a point of the chart. -/
def addPoint (p : Page) (now : ℚ) (symbol : String) (price : Price) : Page :=
  if p.Barred symbol then p
  else
    let time := p.nextTradeTime now symbol
    { p with
      tradeHistory := p.tradeHistory.insert symbol
        ((p.tradeHistory.lookup symbol).getD [] ++ [⟨time, price⟩])
      lastTradeTime := p.lastTradeTime.insert symbol time }

/-- The part of `onMd` about the book. -/
def showPacket (p : Page) (msg : MdMessage) : Page :=
  { p with toBrowser := p.toBrowser.onMd msg.evt msg.side msg.symbol msg.price msg.qty msg.eid }

/-- `onMd`. -/
def onMd (p : Page) (now : ℚ) (msg : MdMessage) : Page :=
  let p := p.showPacket msg
  if msg.side = '2' then
    (p.addTrade ⟨msg.symbol, msg.price, msg.qty⟩).addPoint now msg.symbol msg.price
  else p

/-- `ws.onmessage`. -/
def process (p : Page) (now : ℚ) : PageMessage → Page
  | .snapshot msg => p.onSnapshot msg
  | .symbols symbols => p.onSymbols symbols
  | .md msg => p.onMd now msg

/-- The points of the chart of a symbol. -/
def chart (p : Page) (symbol : String) : List TradePoint :=
  (p.tradeHistory.lookup symbol).getD []

end Page

/-- The `snapshot` message that the server makes. -/
def MarketState.pageSnapshot (m : MarketState) : PageSnapshot where
  toSnapshotMessage := m.subscriber.snapshotMessage
  symbols := m.subscriber.orderBook.keys
  tradeHistory := m.tradeHistory.entries.map fun e => (e.1, e.2)

/-- The messages for which `datagram_received` creates tasks. -/
def MarketState.broadcast (m : MarketState) (pkt : MdPacket) : List PageMessage :=
  match Subscriber.decode pkt.symbol, Subscriber.decode pkt.exchangeId with
  | some symbol, some eid =>
    (if symbol ∉ m.subscriber.orderBook then
      [.symbols (m.subscriber.receive pkt).orderBook.keys]
    else []) ++
      [.md ⟨pkt.eventType, pkt.side, symbol, pkt.price, pkt.qty, eid⟩]
  | _, _ => []

/-! ## Pages that differ in times only -/

namespace Page

variable {p q : Page}

/-- The prices of the chart of a symbol. -/
def prices (p : Page) (symbol : String) : Option (List Price) :=
  (p.tradeHistory.lookup symbol).map (List.map TradePoint.value)

/-- The pages are the same, but for times and for the tape. -/
structure Alike (p q : Page) : Prop where
  browser : p.toBrowser = q.toBrowser
  symbols : p.symbols = q.symbols
  prices : ∀ symbol, p.prices symbol = q.prices symbol

lemma Alike.refl (p : Page) : p.Alike p := ⟨rfl, rfl, fun _ => rfl⟩

lemma mem_tradeHistory {symbol : String} : symbol ∈ p.tradeHistory ↔ (p.prices symbol).isSome := by
  rw [prices, Option.isSome_map, AList.lookup_isSome]

lemma prices_setHistory (p : Page) (e : String × List TradePoint) (symbol : String) :
    (p.setHistory e).prices symbol
      = if symbol = e.1 then some (e.2.map TradePoint.value) else p.prices symbol := by
  by_cases h : symbol = e.1
  · rw [if_pos h, h, prices, setHistory, AList.lookup_insert, Option.map_some]
  · rw [if_neg h, prices, setHistory, AList.lookup_insert_ne h, prices]

lemma Alike.setHistory (h : p.Alike q) (e : String × List TradePoint) :
    (p.setHistory e).Alike (q.setHistory e) := by
  refine ⟨h.browser, h.symbols, fun symbol => ?_⟩
  rw [prices_setHistory, prices_setHistory, h.prices]

lemma Alike.foldl_setHistory (h : p.Alike q) (es : List (String × List TradePoint)) :
    (es.foldl Page.setHistory p).Alike (es.foldl Page.setHistory q) := by
  induction es generalizing p q with
  | nil => exact h
  | cons e es ih => exact ih (h.setHistory e)

lemma Alike.addSymbol (h : p.Alike q) (symbol : String) :
    (p.addSymbol symbol).Alike (q.addSymbol symbol) := by
  rw [Page.addSymbol, Page.addSymbol, h.symbols]
  split_ifs
  · exact h
  · refine ⟨?_, rfl, h.prices⟩
    show p.toBrowser.enterSymbol symbol = q.toBrowser.enterSymbol symbol
    rw [h.browser]

lemma Alike.onSymbols (h : p.Alike q) (symbols : List String) :
    (p.onSymbols symbols).Alike (q.onSymbols symbols) := by
  rw [Page.onSymbols, Page.onSymbols]
  induction symbols generalizing p q with
  | nil => exact h
  | cons symbol symbols ih => exact ih (h.addSymbol symbol)

lemma prices_addPoint (p : Page) (now : ℚ) (symbol : String) (price : Price) (symbol' : String) :
    (p.addPoint now symbol price).prices symbol'
      = if ¬ p.Barred symbol ∧ symbol' = symbol then
          some ((p.prices symbol).getD [] ++ [price])
        else p.prices symbol' := by
  by_cases hbarred : p.Barred symbol
  · rw [addPoint, if_pos hbarred, if_neg fun h => h.1 hbarred]
  · rw [addPoint, if_neg hbarred]
    by_cases h : symbol' = symbol
    · rw [if_pos ⟨hbarred, h⟩, h]
      simp only [prices, AList.lookup_insert, Option.map_some]
      cases p.tradeHistory.lookup symbol <;> simp
    · rw [if_neg fun hand => h hand.2]
      simp only [prices, AList.lookup_insert_ne h]

lemma browser_addPoint (p : Page) (now : ℚ) (symbol : String) (price : Price) :
    (p.addPoint now symbol price).toBrowser = p.toBrowser ∧
      (p.addPoint now symbol price).symbols = p.symbols := by
  rw [addPoint]
  split_ifs <;> exact ⟨rfl, rfl⟩

lemma Alike.addPoint (h : p.Alike q) (now now' : ℚ) (symbol : String) (price : Price) :
    (p.addPoint now symbol price).Alike (q.addPoint now' symbol price) := by
  have hbarred : p.Barred symbol ↔ q.Barred symbol := by
    rw [Barred, Barred, mem_tradeHistory, mem_tradeHistory, h.prices]
  obtain ⟨hbrowser, hsymbols⟩ := p.browser_addPoint now symbol price
  obtain ⟨hbrowser', hsymbols'⟩ := q.browser_addPoint now' symbol price
  refine ⟨?_, ?_, fun symbol' => ?_⟩
  · rw [hbrowser, hbrowser', h.browser]
  · rw [hsymbols, hsymbols', h.symbols]
  · rw [prices_addPoint, prices_addPoint, h.prices, h.prices]
    simp only [hbarred]

lemma Alike.showPacket (h : p.Alike q) (msg : MdMessage) :
    (p.showPacket msg).Alike (q.showPacket msg) := by
  refine ⟨?_, h.symbols, h.prices⟩
  rw [Page.showPacket, Page.showPacket, h.browser]

lemma Alike.addTrade (h : p.Alike q) (t : TapeTrade) : (p.addTrade t).Alike (q.addTrade t) :=
  ⟨h.browser, h.symbols, h.prices⟩

/-- **A message keeps them so**, at whatever times it is processed. -/
lemma Alike.process (h : p.Alike q) (now now' : ℚ) (msg : PageMessage) :
    (p.process now msg).Alike (q.process now' msg) := by
  cases msg with
  | snapshot msg =>
    have hseed : (p.seed msg).Alike (q.seed msg) :=
      ⟨by rw [Page.seed, Page.seed, h.browser], rfl, h.prices⟩
    exact hseed.foldl_setHistory msg.tradeHistory
  | symbols symbols => exact h.onSymbols symbols
  | md msg =>
    simp only [Page.process, Page.onMd]
    split_ifs
    · exact ((h.showPacket msg).addTrade _).addPoint now now' msg.symbol msg.price
    · exact h.showPacket msg

lemma Alike.foldl_process (h : p.Alike q) (now now' : ℚ) (msgs : List PageMessage) :
    (msgs.foldl (fun p msg => p.process now msg) p).Alike
      (msgs.foldl (fun p msg => p.process now' msg) q) := by
  induction msgs generalizing p q with
  | nil => exact h
  | cons msg msgs ih => exact ih (h.process now now' msg)

end Page

/-! ## What a page has of the server -/

namespace MarketState

/-- The prices of the chart of a symbol. -/
def prices (m : MarketState) (symbol : String) : Option (List Price) :=
  (m.tradeHistory.lookup symbol).map (List.map TradePoint.value)

/-- The names that the server keeps are kept. -/
structure Grows (m m' : MarketState) : Prop where
  book : ∀ symbol ∈ m.subscriber.orderBook, symbol ∈ m'.subscriber.orderBook
  history : ∀ symbol ∈ m.tradeHistory, symbol ∈ m'.tradeHistory

variable {m m' : MarketState} {pkt : MdPacket}

lemma Grows.refl (m : MarketState) : m.Grows m := ⟨fun _ h => h, fun _ h => h⟩

/-- Which symbols the server knows behind an event. -/
lemma mem_orderBook_applyMd {s : Subscriber} {evt : EventType} {side : Char} {symbol : String}
    {price : Price} {qty : ℤ} {eid : String} (symbol' : String) :
    symbol' ∈ (s.applyMd evt side symbol price qty eid).orderBook ↔
      symbol' = symbol ∨ symbol' ∈ s.orderBook := by
  have henter : symbol' ∈ (s.enterSymbol symbol).orderBook ↔
      symbol' = symbol ∨ symbol' ∈ s.orderBook := by
    rw [Subscriber.enterSymbol]
    split_ifs with hmem
    · exact ⟨Or.inr, fun h => h.elim (fun heq => heq ▸ hmem) id⟩
    · exact AList.mem_insert _
  rw [Subscriber.applyMd_eq]
  split
  · exact henter
  · refine (AList.mem_insert _).trans ⟨fun h => h.elim Or.inl henter.mp, fun h => ?_⟩
    exact h.elim Or.inl fun h => Or.inr (henter.mpr (Or.inr h))

/-- A packet that the server can read. -/
lemma receive_eq {symbol eid : String} (hsymbol : Subscriber.decode pkt.symbol = some symbol)
    (heid : Subscriber.decode pkt.exchangeId = some eid) (now : ℚ) :
    (m.receive now pkt).subscriber
        = m.subscriber.applyMd pkt.eventType pkt.side symbol pkt.price pkt.qty eid ∧
      ∀ symbol', (m.receive now pkt).prices symbol'
        = if pkt.side = '2' ∧ symbol' = symbol then
            some ((m.prices symbol).getD [] ++ [pkt.price])
          else m.prices symbol' := by
  refine ⟨by simp only [receive, hsymbol, heid], fun symbol' => ?_⟩
  simp only [prices, receive, hsymbol, heid]
  by_cases hside : pkt.side = '2'
  · by_cases h : symbol' = symbol
    · subst h
      rw [if_pos hside, AList.lookup_insert, if_pos ⟨hside, rfl⟩]
      cases m.tradeHistory.lookup symbol' <;> simp
    · rw [if_pos hside, AList.lookup_insert_ne h, if_neg (fun hand => h hand.2)]
  · rw [if_neg hside, if_neg (fun hand => hside hand.1)]

lemma mem_tradeHistory {symbol : String} :
    symbol ∈ m.tradeHistory ↔ (m.prices symbol).isSome := by
  rw [prices, Option.isSome_map, AList.lookup_isSome]

/-- A packet removes no name. -/
lemma Grows.receive (m : MarketState) (now : ℚ) (pkt : MdPacket) : m.Grows (m.receive now pkt) := by
  cases hsymbol : Subscriber.decode pkt.symbol with
  | none =>
    simp only [MarketState.receive, hsymbol]
    exact .refl m
  | some symbol =>
    cases heid : Subscriber.decode pkt.exchangeId with
    | none =>
      simp only [MarketState.receive, hsymbol, heid]
      exact .refl m
    | some eid =>
      obtain ⟨hsubscriber, hprices⟩ := receive_eq (m := m) hsymbol heid now
      refine ⟨fun symbol' h => ?_, fun symbol' h => ?_⟩
      · rw [hsubscriber, mem_orderBook_applyMd]
        exact Or.inr h
      · rw [mem_tradeHistory, hprices]
        split_ifs
        · rfl
        · exact mem_tradeHistory.mp h

/-- An answer removes no name. -/
lemma Grows.process (strptime : Text → Option ℚ) (m : MarketState) (msg : Parsed Price) :
    m.Grows (processMdSnapshot strptime m msg) := by
  simp only [processMdSnapshot]
  split_ifs with hmem hnone
  · exact ⟨fun _ h => (AList.mem_insert _).mpr (Or.inr h), fun _ h => h⟩
  · exact ⟨fun _ h => (AList.mem_insert _).mpr (Or.inr h),
      fun _ h => (AList.mem_insert _).mpr (Or.inr h)⟩
  · exact .refl m

end MarketState

/-- The page keeps no names that the server does not keep. -/
structure Page.Within (m : MarketState) (p : Page) : Prop where
  book : ∀ symbol ∈ p.book, symbol ∈ m.subscriber.orderBook
  history : ∀ symbol ∈ p.tradeHistory, symbol ∈ m.tradeHistory

/-- A message has no names that the server does not keep. -/
def PageMessage.Within (m : MarketState) : PageMessage → Prop
  | .snapshot msg => (∀ e ∈ msg.book, e.1 ∈ m.subscriber.orderBook) ∧
      ∀ e ∈ msg.tradeHistory, e.1 ∈ m.tradeHistory
  | .symbols names => ∀ symbol ∈ names, symbol ∈ m.subscriber.orderBook
  | .md msg => msg.symbol ∈ m.subscriber.orderBook ∧
      (msg.side = '2' → msg.symbol ∈ m.tradeHistory)

section Within

variable {m m' : MarketState} {p : Page} {msg : PageMessage}

lemma Page.Within.mono (h : p.Within m) (hgrows : m.Grows m') : p.Within m' :=
  ⟨fun symbol hsymbol => hgrows.book symbol (h.book symbol hsymbol),
    fun symbol hsymbol => hgrows.history symbol (h.history symbol hsymbol)⟩

lemma PageMessage.Within.mono (h : msg.Within m) (hgrows : m.Grows m') : msg.Within m' := by
  cases msg with
  | snapshot msg =>
    exact ⟨fun e he => hgrows.book _ (h.1 e he), fun e he => hgrows.history _ (h.2 e he)⟩
  | symbols names => exact fun symbol hsymbol => hgrows.book symbol (h symbol hsymbol)
  | md msg => exact ⟨hgrows.book _ h.1, fun hside => hgrows.history _ (h.2 hside)⟩

lemma within_pageSnapshot (m : MarketState) : (PageMessage.snapshot m.pageSnapshot).Within m := by
  refine ⟨fun e he => ?_, fun e he => ?_⟩
  · obtain ⟨e', he', rfl⟩ := List.mem_map.mp he
    exact AList.mem_keys.mpr (List.mem_map_of_mem he')
  · obtain ⟨e', he', rfl⟩ := List.mem_map.mp he
    exact AList.mem_keys.mpr (List.mem_map_of_mem he')

/-- The messages about a packet. -/
lemma within_broadcast (m : MarketState) (now : ℚ) (pkt : MdPacket) :
    ∀ msg ∈ m.broadcast pkt, msg.Within (m.receive now pkt) := by
  intro msg hmsg
  cases hsymbol : Subscriber.decode pkt.symbol with
  | none => simp [MarketState.broadcast, hsymbol] at hmsg
  | some symbol =>
    cases heid : Subscriber.decode pkt.exchangeId with
    | none => simp [MarketState.broadcast, hsymbol, heid] at hmsg
    | some eid =>
      obtain ⟨hsubscriber, hprices⟩ := MarketState.receive_eq (m := m) hsymbol heid now
      simp only [MarketState.broadcast, hsymbol, heid] at hmsg
      rcases List.mem_append.mp hmsg with hmsg | hmsg
      · split_ifs at hmsg
        · exact absurd hmsg List.not_mem_nil
        · obtain rfl := List.mem_singleton.mp hmsg
          intro symbol' hsymbol'
          rw [Startup.subscriber_receive]
          exact AList.mem_keys.mpr hsymbol'
      · obtain rfl := List.mem_singleton.mp hmsg
        refine ⟨?_, fun hside => ?_⟩
        · rw [hsubscriber, MarketState.mem_orderBook_applyMd]
          exact Or.inl rfl
        · rw [MarketState.mem_tradeHistory, hprices, if_pos ⟨hside, rfl⟩]
          rfl

lemma Page.Within.setHistory (h : p.Within m) {e : String × List TradePoint}
    (he : e.1 ∈ m.tradeHistory) : (p.setHistory e).Within m := by
  refine ⟨h.book, fun symbol hsymbol => ?_⟩
  rcases (AList.mem_insert _).mp hsymbol with rfl | hsymbol
  · exact he
  · exact h.history symbol hsymbol

lemma Page.Within.foldl_setHistory (h : p.Within m) {es : List (String × List TradePoint)}
    (hes : ∀ e ∈ es, e.1 ∈ m.tradeHistory) : (es.foldl Page.setHistory p).Within m := by
  induction es generalizing p with
  | nil => exact h
  | cons e es ih =>
    exact ih (h.setHistory (hes e List.mem_cons_self)) fun e' he' =>
      hes e' (List.mem_cons_of_mem _ he')

/-- The server's snapshot enters no other symbols. -/
lemma mem_book_onSnapshot {b : Browser} {msg : SnapshotMessage} {symbol : String} :
    symbol ∈ (b.onSnapshot msg).book ↔ (∃ e ∈ msg.book, e.1 = symbol) ∨ symbol ∈ b.book := by
  obtain ⟨es, orders⟩ := msg
  rw [Browser.onSnapshot]
  generalize b.book = book
  induction es generalizing book with
  | nil => simp
  | cons e es ih =>
    refine (ih (book.insert e.1 _)).trans ?_
    rw [AList.mem_insert, eq_comm (a := symbol)]
    simp only [List.mem_cons, exists_eq_or_imp]
    rw [or_left_comm, or_assoc]

lemma mem_book_enterSymbol {b : Browser} {symbol symbol' : String}
    (h : symbol' ∈ (b.enterSymbol symbol).book) : symbol' = symbol ∨ symbol' ∈ b.book := by
  rw [Browser.enterSymbol] at h
  split_ifs at h
  · exact Or.inr h
  · exact (AList.mem_insert _).mp h

lemma Page.Within.onSymbols (h : p.Within m) {names : List String}
    (hnames : ∀ symbol ∈ names, symbol ∈ m.subscriber.orderBook) :
    (p.onSymbols names).Within m := by
  rw [Page.onSymbols]
  induction names generalizing p with
  | nil => exact h
  | cons symbol names ih =>
    refine ih ?_ fun symbol' hsymbol' => hnames symbol' (List.mem_cons_of_mem _ hsymbol')
    rw [Page.addSymbol]
    split_ifs
    · exact h
    · refine ⟨fun symbol' hsymbol' => ?_, h.history⟩
      rcases mem_book_enterSymbol hsymbol' with rfl | hsymbol'
      · exact hnames _ List.mem_cons_self
      · exact h.book symbol' hsymbol'

/-- **A message keeps the page within the server.** -/
lemma Page.Within.process (h : p.Within m) (hmsg : msg.Within m) (now : ℚ) :
    (p.process now msg).Within m := by
  cases msg with
  | snapshot msg =>
    have hseed : (p.seed msg).Within m := by
      refine ⟨fun symbol hsymbol => ?_, h.history⟩
      rcases mem_book_onSnapshot.mp hsymbol with ⟨e, he, rfl⟩ | hsymbol
      · exact hmsg.1 e he
      · exact h.book symbol hsymbol
    exact hseed.foldl_setHistory hmsg.2
  | symbols names => exact h.onSymbols hmsg
  | md msg =>
    have hshown : (p.showPacket msg).Within m := by
      refine ⟨fun symbol hsymbol => ?_, h.history⟩
      rcases mem_book_enterSymbol (Browser.mem_onMd hsymbol) with rfl | hsymbol
      · exact hmsg.1
      · exact h.book symbol hsymbol
    simp only [Page.process, Page.onMd]
    split_ifs with hside
    · rw [Page.addPoint]
      split_ifs
      · exact ⟨hshown.book, hshown.history⟩
      · refine ⟨hshown.book, fun symbol hsymbol => ?_⟩
        rcases (AList.mem_insert _).mp hsymbol with rfl | hsymbol
        · exact hmsg.2 hside
        · exact h.history symbol hsymbol
    · exact hshown

lemma Page.Within.foldl_process (h : p.Within m) {msgs : List PageMessage}
    (hmsgs : ∀ msg ∈ msgs, msg.Within m) (now : ℚ) :
    (msgs.foldl (fun p msg => p.process now msg) p).Within m := by
  induction msgs generalizing p with
  | nil => exact h
  | cons msg msgs ih =>
    exact ih (h.process (hmsgs msg List.mem_cons_self) now) fun msg' hmsg' =>
      hmsgs msg' (List.mem_cons_of_mem _ hmsg')

end Within

/-- The page has what the server has. -/
structure Agrees (listed : String → Prop) (m : MarketState) (p : Page) : Prop where
  browser : InStep listed (fun _ _ _ => True) m.subscriber p.toBrowser
  nodup : p.symbols.Nodup
  tabs : ∀ symbol, symbol ∈ p.symbols ↔ symbol ∈ m.subscriber.orderBook
  shown : ∀ symbol ∈ m.subscriber.orderBook, listed symbol → symbol ∈ p.book
  prices : ∀ symbol ∉ Browser.inherited, p.prices symbol = m.prices symbol

section Agreement

variable {listed : String → Prop} {m : MarketState} {p q : Page}

lemma Agrees.of_alike (h : Agrees listed m p) (halike : p.Alike q) : Agrees listed m q :=
  ⟨halike.browser ▸ h.browser, halike.symbols ▸ h.nodup,
    fun symbol => halike.symbols ▸ h.tabs symbol, halike.browser ▸ h.shown,
    fun symbol hsymbol => (halike.prices symbol).symm.trans (h.prices symbol hsymbol)⟩

/-- The book of a page that has been within the server, behind a snapshot. -/
lemma lookup_book_onSnapshot {b : Browser} {s : Subscriber}
    (hb : ∀ symbol ∈ b.book, symbol ∈ s.orderBook) (symbol : String) :
    (b.onSnapshot s.snapshotMessage).book.lookup symbol = (Browser.start s).book.lookup symbol := by
  -- the books of the message, as they are entered
  let es : List (String × SymbolBook) := s.orderBook.entries.map fun e =>
    (e.1, ⟨Ladder.ofPairs (topTen '0' e.2.bids), Ladder.ofPairs (topTen '1' e.2.asks)⟩)
  have hfold : (es.foldl (fun m e => m.insert e.1 e.2) b.book).lookup symbol
      = (es.foldl (fun m e => m.insert e.1 e.2) (∅ : StrMap SymbolBook)).lookup symbol := by
    refine Ladder.lookup_foldl_insert_congr ?_
    rw [List.map_map]
    by_cases hmem : symbol ∈ s.orderBook
    · exact Or.inl (AList.mem_keys.mp hmem)
    · rw [AList.lookup_eq_none.mpr fun h => hmem (hb symbol h)]
      exact Or.inr rfl
  rw [List.foldl_map, List.foldl_map] at hfold
  simpa only [Browser.onSnapshot, Browser.start, Browser.init, Subscriber.snapshotMessage,
    Subscriber.bookSnapshot, List.foldl_map] using hfold

lemma tradeHistory_foldl_setHistory (es : List (String × List TradePoint)) (p : Page) :
    (es.foldl Page.setHistory p).tradeHistory
      = es.foldl (fun h e => h.insert e.1 e.2) p.tradeHistory := by
  induction es generalizing p with
  | nil => rfl
  | cons e es ih => exact ih (p.setHistory e)

lemma browser_foldl_setHistory (es : List (String × List TradePoint)) (p : Page) :
    (es.foldl Page.setHistory p).toBrowser = p.toBrowser ∧
      (es.foldl Page.setHistory p).symbols = p.symbols := by
  induction es generalizing p with
  | nil => exact ⟨rfl, rfl⟩
  | cons e es ih => exact ih (p.setHistory e)

/-- The charts of a page that has been within the server, behind a snapshot. -/
lemma lookup_tradeHistory_onSnapshot (h : p.Within m) (symbol : String) :
    (p.onSnapshot m.pageSnapshot).tradeHistory.lookup symbol = m.tradeHistory.lookup symbol := by
  have hpairs := Ladder.lookup_ofPairs_map (m := m.tradeHistory) id symbol
  rw [Option.map_id] at hpairs
  rw [Page.onSnapshot, tradeHistory_foldl_setHistory]
  refine Eq.trans (Ladder.lookup_foldl_insert_congr ?_) hpairs
  rw [MarketState.pageSnapshot, List.map_map]
  by_cases hmem : symbol ∈ m.tradeHistory
  · exact Or.inl (AList.mem_keys.mp hmem)
  · refine Or.inr ?_
    show p.tradeHistory.lookup symbol = none
    exact AList.lookup_eq_none.mpr fun h' => hmem (h.history symbol h')

/-- **The server's snapshot gives the page what the server has.** -/
lemma Agrees.snapshot (h : p.Within m) (hshallow : m.subscriber.Shallow listed) :
    Agrees listed m (p.onSnapshot m.pageSnapshot) := by
  obtain ⟨hbrowser, hsymbols⟩ := browser_foldl_setHistory m.pageSnapshot.tradeHistory
    (p.seed m.pageSnapshot)
  have hbook := lookup_book_onSnapshot h.book
  refine ⟨?_, ?_, fun symbol => ?_, fun symbol hsymbol _ => ?_, fun symbol _ => ?_⟩
  · rw [Page.onSnapshot, hbrowser]
    have hstart := InStep.start hshallow.known
    refine ⟨fun eid => hstart.orders eid, fun symbol side price hside _ => ?_,
      fun symbol hsymbol hlisted hfits => ?_⟩
    · have hlevels : ((p.seed m.pageSnapshot).levels symbol side)
          = (Browser.start m.subscriber).levels symbol side := by
        rw [Browser.levels, Browser.levels, Browser.bookOf, Browser.bookOf]
        exact congrArg (fun b : Option SymbolBook =>
          if side = '0' then (b.getD ⟨∅, ∅⟩).bids else (b.getD ⟨∅, ∅⟩).asks) (hbook symbol)
      rw [hlevels, Browser.levels_start _ _ hside]
      exact Ladder.lookup_cut_of_le (hshallow.levels symbol side hside) price
    · refine AList.lookup_isSome.mp ?_
      have hmem := hstart.known symbol hsymbol hlisted hfits
      rw [← AList.lookup_isSome, ← hbook] at hmem
      exact hmem
  · rw [Page.onSnapshot, hsymbols]
    exact m.subscriber.orderBook.keys_nodup
  · rw [Page.onSnapshot, hsymbols]
    exact AList.mem_keys.symm
  · have hmem := Browser.mem_book_start.mpr hsymbol
    rw [← AList.lookup_isSome, ← hbook, AList.lookup_isSome] at hmem
    rw [Page.onSnapshot, hbrowser]
    exact hmem
  · rw [Page.prices, lookup_tradeHistory_onSnapshot h]
    rfl

lemma mem_enterSymbol_of_mem {b : Browser} {name : String} (h : name ∈ b.book) (symbol : String) :
    name ∈ (b.enterSymbol symbol).book := by
  rw [Browser.enterSymbol]
  split_ifs
  · exact h
  · exact (AList.mem_insert _).mpr (Or.inr h)

/-- An event removes no symbol. -/
lemma mem_onMd_of_mem {b : Browser} {evt : EventType} {side : Char} {symbol name : String}
    {price : Price} {qty : ℤ} {eid : String} (h : name ∈ (b.enterSymbol symbol).book) :
    name ∈ (b.onMd evt side symbol price qty eid).book := by
  simp only [Browser.onMd]
  revert h
  generalize b.enterSymbol symbol = b
  intro h
  have hadd : ∀ {b' : Browser} {price delta}, b'.book = b.book →
      name ∈ (b'.addToLevel symbol side price delta).book := fun hbook =>
    (AList.mem_insert _).mpr (Or.inr (hbook ▸ h))
  by_cases hout : symbol ∉ b.book ∨ (side ≠ '0' ∧ side ≠ '1') ∨ eid = ""
  · rw [if_pos hout]
    exact h
  · rw [if_neg hout]
    cases evt with
    | NewOrder | ReplaceNew => exact hadd rfl
    | Trade => exact h
    | Cancel | ReplaceDelete | ReplaceInPlace =>
      cases b.bookOrders.lookup eid with
      | none => exact h
      | some prev => exact hadd rfl
    | FillResting =>
      cases b.bookOrders.lookup eid with
      | none => exact h
      | some prev =>
        dsimp only
        split_ifs <;> exact hadd rfl

/-- The page enters a symbol by itself. -/
lemma inStep_enterSymbol {P : String → Char → Price → Prop} {s : Subscriber} {b : Browser}
    (h : InStep listed P s b) (symbol : String) : InStep listed P s (b.enterSymbol symbol) := by
  refine ⟨fun eid => ?_, fun symbol' side price hside hP => ?_,
    fun symbol' hsymbol hlisted hfits => ?_⟩
  · rw [b.bookOrders_enterSymbol]
    exact h.orders eid
  · rw [Browser.levels, b.bookOf_enterSymbol]
    exact h.levels symbol' side price hside hP
  · exact mem_enterSymbol_of_mem (h.known symbol' hsymbol hlisted hfits) symbol

/-- What `onSymbols` changes. -/
lemma onSymbols_spec {P : String → Char → Price → Prop} {s : Subscriber}
    (h : InStep listed P s p.toBrowser) (hnodup : p.symbols.Nodup) (names : List String) :
    InStep listed P s (p.onSymbols names).toBrowser ∧ (p.onSymbols names).symbols.Nodup ∧
      (∀ symbol, symbol ∈ (p.onSymbols names).symbols ↔ symbol ∈ p.symbols ∨ symbol ∈ names) ∧
      (∀ symbol ∈ p.book, symbol ∈ (p.onSymbols names).book) ∧
      (p.onSymbols names).tradeHistory = p.tradeHistory := by
  rw [Page.onSymbols]
  induction names generalizing p with
  | nil => exact ⟨h, hnodup, by simp, fun _ h => h, rfl⟩
  | cons name names ih =>
    rw [List.foldl_cons, Page.addSymbol]
    split_ifs with hmem
    · obtain ⟨hbrowser, hnodup', hmem', hbook, hhistory⟩ := ih h hnodup
      refine ⟨hbrowser, hnodup', fun symbol => (hmem' symbol).trans ?_, hbook, hhistory⟩
      rw [List.mem_cons]
      exact ⟨fun hor => hor.imp_right Or.inr, fun hor => hor.elim Or.inl fun hor =>
        hor.elim (fun heq => Or.inl (heq ▸ hmem)) Or.inr⟩
    · have hadded : (p.symbols ++ [name]).Nodup :=
        hnodup.append (List.nodup_singleton name) (List.disjoint_singleton.mpr hmem)
      obtain ⟨hbrowser, hnodup', hmem', hbook, hhistory⟩ := ih
        (p := { p with toBrowser := p.toBrowser.enterSymbol name, symbols := p.symbols ++ [name] })
        (inStep_enterSymbol h name) hadded
      refine ⟨hbrowser, hnodup', fun symbol => (hmem' symbol).trans ?_,
        fun symbol hsymbol => hbook symbol (mem_enterSymbol_of_mem hsymbol name), hhistory⟩
      rw [List.mem_append, List.mem_singleton, List.mem_cons, or_assoc]

/-- What the message about a packet changes. -/
lemma onMd_spec (p : Page) (now : ℚ) (msg : MdMessage) :
    (p.onMd now msg).toBrowser
        = p.toBrowser.onMd msg.evt msg.side msg.symbol msg.price msg.qty msg.eid ∧
      (p.onMd now msg).symbols = p.symbols ∧
      ∀ symbol ∉ Browser.inherited, (p.onMd now msg).prices symbol
        = if msg.side = '2' ∧ symbol = msg.symbol then
            some ((p.prices msg.symbol).getD [] ++ [msg.price])
          else p.prices symbol := by
  rw [Page.onMd]
  split_ifs with hside
  · obtain ⟨hbrowser, hsymbols⟩ := ((p.showPacket msg).addTrade
      ⟨msg.symbol, msg.price, msg.qty⟩).browser_addPoint now msg.symbol msg.price
    refine ⟨hbrowser, hsymbols, fun symbol hfree => ?_⟩
    rw [Page.prices_addPoint]
    by_cases heq : symbol = msg.symbol
    · rw [if_pos ⟨fun hbarred => hfree (heq ▸ hbarred.1), heq⟩, if_pos ⟨hside, heq⟩]
      rfl
    · rw [if_neg fun h => heq h.2, if_neg fun h => heq h.2]
      rfl
  · refine ⟨rfl, rfl, fun symbol _ => ?_⟩
    rw [if_neg fun h => hside h.1]
    rfl

/-- **The messages about a packet** let the page keep up with the server. -/
lemma Agrees.receive (h : Agrees listed m p) {pkt : MdPacket} (hpkt : Genuine listed pkt)
    (now now' : ℚ) :
    Agrees listed (m.receive now pkt)
      ((m.broadcast pkt).foldl (fun p msg => p.process now' msg) p) := by
  cases hsymbol : Subscriber.decode pkt.symbol with
  | none =>
    simp only [MarketState.broadcast, MarketState.receive, hsymbol]
    exact h
  | some symbol =>
    cases heid : Subscriber.decode pkt.exchangeId with
    | none =>
      simp only [MarketState.broadcast, MarketState.receive, hsymbol, heid]
      exact h
    | some eid =>
      obtain ⟨hsubscriber, hprices⟩ := MarketState.receive_eq (m := m) hsymbol heid now
      -- the page behind the tabs, if there is a new one
      obtain ⟨names, hnames, hfold⟩ : ∃ names : List String,
          (∀ sym, sym ∈ p.symbols ∨ sym ∈ names ↔ sym = symbol ∨ sym ∈ m.subscriber.orderBook) ∧
          (m.broadcast pkt).foldl (fun p msg => p.process now' msg) p
            = (p.onSymbols names).onMd now'
                ⟨pkt.eventType, pkt.side, symbol, pkt.price, pkt.qty, eid⟩ := by
        by_cases hnew : symbol ∈ m.subscriber.orderBook
        · refine ⟨[], fun sym => ?_, ?_⟩
          · rw [h.tabs]
            exact ⟨fun hor => hor.elim Or.inr (absurd · List.not_mem_nil), fun hor =>
              hor.elim (fun heq => Or.inl (heq ▸ hnew)) Or.inl⟩
          · simp [MarketState.broadcast, hsymbol, heid, hnew, Page.process, Page.onSymbols]
        · refine ⟨(m.subscriber.receive pkt).orderBook.keys, fun sym => ?_, ?_⟩
          · rw [h.tabs, AList.mem_keys.symm, ← Startup.subscriber_receive m now, hsubscriber,
              MarketState.mem_orderBook_applyMd]
            tauto
          · simp [MarketState.broadcast, hsymbol, heid, hnew, Page.process]
      obtain ⟨hbrowser, hnodup, hmem, hbook, hhistory⟩ := onSymbols_spec h.browser h.nodup names
      obtain ⟨hbrowser', hsymbols, hprices'⟩ := onMd_spec (p.onSymbols names) now'
        ⟨pkt.eventType, pkt.side, symbol, pkt.price, pkt.qty, eid⟩
      rw [hfold]
      refine ⟨?_, ?_, fun sym => ?_, fun sym hsym hlisted => ?_, fun sym hfree => ?_⟩
      · have hstep := hbrowser.receive hpkt
        rw [Subscriber.receive, Browser.receive] at hstep
        simp only [hsymbol, heid] at hstep
        rw [hbrowser', hsubscriber]
        exact hstep
      · rw [hsymbols]
        exact hnodup
      · rw [hsymbols, hmem, hnames, hsubscriber, MarketState.mem_orderBook_applyMd]
      · rw [hsubscriber, MarketState.mem_orderBook_applyMd] at hsym
        rw [hbrowser']
        refine mem_onMd_of_mem ?_
        rcases hsym with rfl | hsym
        · rw [Browser.enterSymbol]
          split_ifs with hin
          · exact hin.elim id fun hname =>
              hbrowser.known sym hname hlisted (textFits_of_decode hsymbol)
          · exact (AList.mem_insert _).mpr (Or.inl rfl)
        · exact mem_enterSymbol_of_mem (hbook sym (h.shown sym hsym hlisted)) symbol
      · rw [hprices' sym hfree, hprices]
        have hsame : ∀ sym ∉ Browser.inherited,
            (p.onSymbols names).prices sym = m.prices sym := fun sym hfree => by
          rw [Page.prices, hhistory]
          exact h.prices sym hfree
        split_ifs with hand
        · have heq : sym = symbol := hand.2
          rw [hsame symbol (heq ▸ hfree)]
        · exact hsame sym hfree

end Agreement

/-! ## The times of the charts -/

/-- The times of the points increase. -/
def Increasing (points : List TradePoint) : Prop := (points.map TradePoint.time).Pairwise (· < ·)

section Times

variable {m : MarketState} {p : Page} {points : List TradePoint}

lemma Increasing.le_last (h : Increasing points) {point last : TradePoint} (hpoint : point ∈ points)
    (hlast : points.getLast? = some last) : point.time ≤ last.time := by
  rcases List.eq_nil_or_concat' points with rfl | ⟨front, x, rfl⟩
  · exact absurd hpoint List.not_mem_nil
  · rw [List.getLast?_concat] at hlast
    obtain rfl := Option.some.inj hlast
    rw [Increasing, List.map_append, List.pairwise_append] at h
    rcases List.mem_append.mp hpoint with hpoint | hpoint
    · exact (h.2.2 _ (List.mem_map_of_mem hpoint) _ (by simp)).le
    · rw [List.mem_singleton.mp hpoint]

/-- A point that is later than a bound on the last one. -/
lemma Increasing.snoc (h : Increasing points) {bound time : ℚ}
    (hbound : ∀ last ∈ points.getLast?, last.time ≤ bound) (htime : bound < time) (value : Price) :
    Increasing (points ++ [⟨time, value⟩]) := by
  rw [Increasing, List.map_append, List.pairwise_append]
  refine ⟨h, List.pairwise_singleton _ _, fun t ht t' ht' => ?_⟩
  obtain ⟨point, hpoint, rfl⟩ := List.mem_map.mp ht
  obtain rfl := List.mem_singleton.mp ht'
  obtain ⟨last, hlast⟩ := Option.isSome_iff_exists.mp
    (List.getLast?_isSome.mpr (List.ne_nil_of_mem hpoint))
  exact (h.le_last hpoint hlast).trans_lt ((hbound last hlast).trans_lt htime)

/-- The charts of the server increase. -/
def MarketState.Timed (m : MarketState) : Prop :=
  ∀ symbol points, m.tradeHistory.lookup symbol = some points → Increasing points

/-- The charts of a page increase, up to the times that it keeps. -/
def Page.Timed (p : Page) : Prop :=
  ∀ symbol points, p.tradeHistory.lookup symbol = some points → Increasing points ∧
    ∀ last ∈ points.getLast?, last.time ≤ (p.lastTradeTime.lookup symbol).getD 0

/-- The charts in a message increase. -/
def PageMessage.Timed : PageMessage → Prop
  | .snapshot msg => ∀ e ∈ msg.tradeHistory, Increasing e.2
  | .symbols _ | .md _ => True

/-- The messages about a packet have no charts. -/
lemma timed_broadcast {pkt : MdPacket} {msg : PageMessage} (h : msg ∈ m.broadcast pkt) :
    msg.Timed := by
  cases msg with
  | snapshot msg =>
    refine absurd h ?_
    simp only [MarketState.broadcast]
    split
    · split_ifs <;> simp
    · simp
  | symbols names => trivial
  | md msg => trivial

lemma lt_max_add (now last : ℚ) : last < max now (last + 1 / 1000) :=
  lt_max_of_lt_right (by linarith)

lemma MarketState.Timed.receive (h : m.Timed) (now : ℚ) (pkt : MdPacket) :
    (m.receive now pkt).Timed := by
  intro symbol' points hpoints
  simp only [MarketState.receive] at hpoints
  split at hpoints
  · rename_i symbol eid hsymbol heid
    split_ifs at hpoints
    · by_cases heq : symbol' = symbol
      · rw [heq, AList.lookup_insert] at hpoints
        obtain rfl := Option.some.inj hpoints
        refine Increasing.snoc ?_ (fun last hlast => ?_) (lt_max_add now _) _
        · cases hold : m.tradeHistory.lookup symbol with
          | none => exact List.Pairwise.nil
          | some old => exact h symbol old hold
        · rw [Option.mem_def.mp hlast]
          exact le_rfl
      · rw [AList.lookup_insert_ne heq] at hpoints
        exact h symbol' points hpoints
    · exact h symbol' points hpoints
  · exact h symbol' points hpoints

/-- An entry of an answer appends a point, if anything. -/
lemma increasing_seedEntry (strptime : Text → Option ℚ) (symbol : String) {f : Seed}
    (h : Increasing f.trades) (e : MdEntry Price) :
    Increasing (seedEntry strptime symbol f e).trades := by
  have hset : ∀ (f : Seed) (eid : Option Text) (st : OrderState),
      (f.setState eid st).trades = f.trades := by
    intro f eid st
    cases eid with
    | none => rfl
    | some id =>
      rw [Seed.setState]
      split_ifs <;> rfl
  have htrade : ∀ (t : ℚ) (v : Price), Increasing (f.addTrade t v).trades := fun t v =>
    h.snoc (fun last hlast => by rw [Option.mem_def.mp hlast]; exact le_rfl) (lt_max_add t _) v
  rw [seedEntry]
  cases e.price with
  | none => exact h
  | some price =>
    dsimp only
    split_ifs
    · exact h
    · rw [hset]
      exact h
    · rw [hset]
      exact h
    · cases strptime (e.date.getD [] ++ e.time.getD []) with
      | none => exact h
      | some t => exact htrade t price
    · exact h
    · exact h

lemma increasing_foldl (strptime : Text → Option ℚ) (symbol : String) {f : Seed}
    (h : Increasing f.trades) (es : List (MdEntry Price)) :
    Increasing (es.foldl (seedEntry strptime symbol) f).trades := by
  induction es generalizing f with
  | nil => exact h
  | cons e es ih => exact ih (increasing_seedEntry strptime symbol h e)

lemma MarketState.Timed.process (h : m.Timed) (strptime : Text → Option ℚ) (msg : Parsed Price) :
    (processMdSnapshot strptime m msg).Timed := by
  intro symbol' points hpoints
  simp only [processMdSnapshot] at hpoints
  split_ifs at hpoints
  · exact h symbol' points hpoints
  · rename_i hmem hne
    by_cases heq : symbol' = String.ofList ((msg.fields.lookup "55".toList).getD [])
    · rw [heq, AList.lookup_insert] at hpoints
      obtain rfl := Option.some.inj hpoints
      exact increasing_foldl strptime _ (f := ⟨∅, ∅, m.subscriber.orderState, []⟩)
        List.Pairwise.nil _
    · rw [AList.lookup_insert_ne heq] at hpoints
      exact h symbol' points hpoints
  · exact h symbol' points hpoints

lemma Page.Timed.setHistory (h : p.Timed) {e : String × List TradePoint} (he : Increasing e.2) :
    (p.setHistory e).Timed := by
  intro symbol points hpoints
  by_cases heq : symbol = e.1
  · rw [Page.setHistory, heq, AList.lookup_insert] at hpoints
    obtain rfl := Option.some.inj hpoints
    refine ⟨he, fun last hlast => ?_⟩
    have htime : (p.setHistory e).lastTradeTime.lookup e.1 = some last.time := by
      simp only [Page.setHistory]
      rw [Option.mem_def.mp hlast]
      exact AList.lookup_insert _
    rw [heq, htime, Option.getD_some]
  · rw [Page.setHistory, AList.lookup_insert_ne heq] at hpoints
    have hsame : (p.setHistory e).lastTradeTime.lookup symbol = p.lastTradeTime.lookup symbol := by
      rw [Page.setHistory]
      split
      · exact AList.lookup_insert_ne heq
      · rfl
    rw [hsame]
    exact h symbol points hpoints

lemma Page.Timed.addPoint (h : p.Timed) (now : ℚ) (symbol : String) (price : Price) :
    (p.addPoint now symbol price).Timed := by
  rw [Page.addPoint]
  split_ifs
  · exact h
  · intro symbol' points hpoints
    by_cases heq : symbol' = symbol
    · rw [heq, AList.lookup_insert] at hpoints ⊢
      obtain rfl := Option.some.inj hpoints
      refine ⟨?_, fun last hlast => ?_⟩
      · have hold : Increasing ((p.tradeHistory.lookup symbol).getD []) ∧
            ∀ last ∈ ((p.tradeHistory.lookup symbol).getD []).getLast?,
              last.time ≤ (p.lastTradeTime.lookup symbol).getD 0 := by
          cases hlookup : p.tradeHistory.lookup symbol with
          | none => exact ⟨List.Pairwise.nil, fun last hlast => absurd hlast (by simp)⟩
          | some old => exact h symbol old hlookup
        exact hold.1.snoc hold.2 (lt_max_add now _) price
      · rw [List.getLast?_concat] at hlast
        obtain rfl := Option.some.inj hlast
        exact le_rfl
    · rw [AList.lookup_insert_ne heq] at hpoints ⊢
      exact h symbol' points hpoints

/-- **A message keeps the times in order**, whatever the clock of the page says. -/
lemma Page.Timed.process (h : p.Timed) {msg : PageMessage} (hmsg : msg.Timed) (now : ℚ) :
    (p.process now msg).Timed := by
  cases msg with
  | snapshot msg =>
    rw [Page.process, Page.onSnapshot]
    have hseed : (p.seed msg).Timed := h
    revert hseed hmsg
    rw [PageMessage.Timed]
    generalize p.seed msg = p
    generalize msg.tradeHistory = es
    intro hes h
    induction es generalizing p with
    | nil => exact h
    | cons e es ih =>
      exact ih _ (fun e' he' => hes e' (List.mem_cons_of_mem _ he'))
        (h.setHistory (hes e List.mem_cons_self))
  | symbols names =>
    have hsame : (p.onSymbols names).tradeHistory = p.tradeHistory ∧
        (p.onSymbols names).lastTradeTime = p.lastTradeTime := by
      rw [Page.onSymbols]
      clear h hmsg
      induction names generalizing p with
      | nil => exact ⟨rfl, rfl⟩
      | cons name names ih =>
        obtain ⟨hhistory, htime⟩ := ih (p := p.addSymbol name)
        rw [List.foldl_cons, hhistory, htime, Page.addSymbol]
        split_ifs <;> exact ⟨rfl, rfl⟩
    intro symbol points hpoints
    rw [Page.process, hsame.1] at hpoints
    rw [Page.process, hsame.2]
    exact h symbol points hpoints
  | md msg =>
    simp only [Page.process, Page.onMd]
    split_ifs
    · exact Page.Timed.addPoint (p := (p.showPacket msg).addTrade _) h now msg.symbol msg.price
    · exact h

end Times

end FixClient

end FixExchange
