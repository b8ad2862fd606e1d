/-
# The chart from its start

The server starts its chart with the history that comes with the snapshots, and goes on with the
trades that the feed prints from where it has joined the group.  When it joins with all answers in
its hands, the chart has trades of the tape only, each at most once, in their order: a part that the
database had, and a part that has been printed later (`chart_follows_tape`).  What was not written
yet when the engine took the snapshots, or was printed before the server had joined, is missing; if
there was nothing like that, nothing is.
-/
import FixExchange.System.Cancels
import FixExchange.System.TradeTape
import FixExchange.Ui.Datagram
import FixExchange.Ui.Startup

namespace FixExchange

/-! ## What trades are about -/

lemma symbol_of_mem_fillsOf {symbol : String} {seq : ℕ} {ts : List Trade} {f : FillPair}
    (hf : f ∈ fillsOf symbol seq ts) : f.maker.symbol = symbol := by
  induction ts generalizing seq with
  | nil => exact absurd hf List.not_mem_nil
  | cons t ts ih =>
    rcases List.mem_cons.mp hf with rfl | hf
    · rfl
    · exact ih hf

namespace OrderBook

variable {b : OrderBook}

lemma symbol_of_mem_add (h : b.Wf) (o : Order) {f : FillPair} (hf : f ∈ (b.add o).fills) :
    f.maker.symbol = b.symbol := by
  rw [(add_toFlat h o).2.2] at hf
  exact symbol_of_mem_fillsOf hf

lemma symbol_of_mem_replace (h : b.Wf) {id : String} {p : Price} {q : ℤ} {f : FillPair}
    (hf : f ∈ (b.replace id p q).fills) : f.maker.symbol = b.symbol := by
  rcases h.replace_eq id p q with ⟨-, hr⟩ | ⟨m, hm, rfl, ⟨-, -, hr⟩ | ⟨-, hr⟩⟩
  · rw [hr] at hf
    exact absurd hf List.not_mem_nil
  · rw [hr] at hf
    exact absurd hf List.not_mem_nil
  · rw [hr] at hf
    exact (symbol_of_mem_add (h.unlink hm) _ hf).trans (unlink_symbol ..)

/-- The trade of a call is in the symbol of the book, and about one of its orders. -/
lemma trade_of_processIn (h : b.Wf) {item : WorkItem} {maker taker : Fill}
    (hcb : .onFill maker taker ∈ (processIn b item).2) :
    maker.symbol = b.symbol ∧ ∃ m ∈ b.nodes, maker.Of m.order := by
  refine ⟨?_, by cases calls_processIn h hcb <;> assumption⟩
  cases item with
  | order o =>
    obtain ⟨fs, last, hfs, hcbs, hlast⟩ := processOrder_calls b o
    rw [processIn, hcbs] at hcb
    rcases List.mem_append.mp hcb with hcb | hcb
    · obtain ⟨f, hf, heq⟩ := mem_fillCallbacks.mp hcb
      obtain ⟨rfl, -⟩ := Callback.onFill.inj heq
      rcases hfs with rfl | rfl
      · exact absurd hf List.not_mem_nil
      · exact symbol_of_mem_add h o hf
    · rcases hlast _ hcb with heq | heq | ⟨heq, -⟩ <;> exact absurd heq (by simp)
  | cancel req => exact absurd (List.mem_singleton.mp hcb) (by simp)
  | replace req =>
    rw [processIn, processReplace] at hcb
    rcases List.mem_append.mp hcb with hcb | hcb
    · obtain ⟨f, hf, heq⟩ := mem_fillCallbacks.mp hcb
      obtain ⟨rfl, -⟩ := Callback.onFill.inj heq
      exact symbol_of_mem_replace h hf
    · exact absurd (List.mem_singleton.mp hcb) (by simp)

end OrderBook

namespace System

variable {cfg : Config} {db : Database} {ok : System → Action → Prop} {s s' s₀ : System}
  {as : List Action} {a : Action} {f : Fill}

/-- A trade is in a symbol that has a book, and about an order with an id. -/
structure Trades (s : System) (f : Fill) : Prop where
  symbol : f.symbol ∈ s.engine.books
  issued : Issued s.gateway.orderSeq f.exchangeId

lemma mem_books_step (hstep : s.step a = some s') {symbol : String}
    (h : symbol ∈ s.engine.books) : symbol ∈ s'.engine.books := by
  cases a with
  | message msg session =>
    obtain ⟨-, rfl⟩ := step_message hstep
    exact h
  | logon session =>
    obtain ⟨-, rfl⟩ := step_logon hstep
    exact h
  | handle =>
    rcases handle_cases hstep with ⟨o, session, -, rfl⟩ | ⟨o, session, -, rfl⟩ | ⟨item, -, rfl⟩ <;>
      exact h
  | engine =>
    rcases engineStep_cases hstep with ⟨t, ts, -, rfl⟩ | ⟨-, item, queue, b, -, hb, rfl⟩
    · exact h
    · exact (AList.mem_insert _).mpr (Or.inr h)
  | persist =>
    obtain ⟨p, p', -, -, rfl⟩ := step_persist hstep
    exact h
  | registerSymbol sym =>
    obtain ⟨e, he, rfl⟩ := step_registerSymbol hstep
    obtain ⟨b, hb⟩ := Option.isSome_iff_exists.mp (AList.lookup_isSome.mpr h)
    refine AList.lookup_isSome.mp (Option.isSome_iff_exists.mpr ⟨b, ?_⟩)
    rcases (MatchingEngine.registerSymbol_books he).1 symbol with hsame | ⟨-, hnone, -⟩
    · exact hsame.trans hb
    · exact absurd (hnone.symm.trans hb) (by simp)

lemma Trades.step (h : s.Trades f) (hstep : s.step a = some s') : s'.Trades f :=
  ⟨mem_books_step hstep h.symbol, h.issued.mono (orderSeq_le hstep)⟩

/-- The trades that a step makes. -/
lemma trades_of_makes (hs : s.Founded) (hstep : s.step a = some s') (hf : f ∈ s.makes a) :
    s.Trades f := by
  cases a with
  | engine =>
    rcases engineStep_cases hstep with ⟨t, ts, ht, -⟩ | ⟨ht, item, queue, b, hq, hb, -⟩
    · exact absurd hf (by simp [makes, ht])
    · have hprocess := MatchingEngine.process_eq_some.mpr ⟨b, hb, rfl, rfl⟩
      have hmakes : s.makes .engine = (processIn b item).2.flatMap Callback.trades := by
        simp [makes, ht, hq, hprocess]
      rw [hmakes] at hf
      obtain ⟨cb, hcb, hf⟩ := List.mem_flatMap.mp hf
      cases cb with
      | onFill maker taker =>
        obtain rfl := List.mem_singleton.mp hf
        obtain ⟨hsymbol, m, hm, hmaker⟩ := OrderBook.trade_of_processIn (hs.books.wf _ b hb) hcb
        refine ⟨?_, ?_⟩
        · rw [hsymbol, hs.books.symbol _ b hb]
          exact AList.lookup_isSome.mp (Option.isSome_iff_exists.mpr ⟨b, hb⟩)
        · rw [hmaker.exchangeId]
          exact ((hs.books.orders _ b hb m hm).2).1
      | onCancel | onTIFCancel | onReplace | onOrderRested => exact absurd hf List.not_mem_nil
  | message | logon | handle | persist | registerSymbol symbol => exact absurd hf List.not_mem_nil

lemma trades_of_mem {cfg : Config} (h : RunTo cfg ok as s) (hf : f ∈ (start cfg).trades as) :
    s.Trades f := by
  revert hf
  refine h.invariant_history (I := fun as s => f ∈ (start cfg).trades as → s.Trades f)
    (fun hf => absurd hf List.not_mem_nil) fun as t a u hrun ih _ hstep hf => ?_
  rw [trades, hrun.collect_snoc] at hf
  rcases List.mem_append.mp hf with hf | hf
  · exact (ih hf).step hstep
  · exact (trades_of_makes (sound_of_run hrun).founded hstep hf).step hstep

end System

namespace FixClient

variable {symbol : String}

/-! ## The tape of a symbol -/

/-- The trades of a symbol among some packets. -/
def printsOf (symbol : String) (pkts : List MdPacket) : List (Price × ℤ) :=
  (pkts.filter fun pkt => IsTradeOf symbol pkt).map fun pkt => (pkt.price, pkt.qty)

lemma printsOf_append (symbol : String) (pkts pkts' : List MdPacket) :
    printsOf symbol (pkts ++ pkts') = printsOf symbol pkts ++ printsOf symbol pkts' := by
  rw [printsOf, List.filter_append, List.map_append]
  rfl

/-- A print that the server takes for one of the symbol. -/
def PrintOf (symbol : String) (e : Print) : Prop :=
  Subscriber.decode e.symbol = some symbol ∧ (Subscriber.decode e.exchangeId).isSome

instance (symbol : String) (e : Print) : Decidable (PrintOf symbol e) :=
  inferInstanceAs (Decidable (_ ∧ _))

lemma printsOf_eq (symbol : String) (pkts : List MdPacket) :
    printsOf symbol pkts
      = ((pkts.filterMap MdPacket.print).filter fun e => PrintOf symbol e).map
          fun e => (e.price, e.qty) := by
  induction pkts with
  | nil => rfl
  | cons pkt pkts ih =>
    rw [← List.singleton_append, printsOf_append, ih, List.filterMap_append, List.filter_append,
      List.map_append]
    congr 1
    by_cases hside : pkt.side = '2'
    · have hprint : [pkt].filterMap MdPacket.print
          = [⟨pkt.symbol, pkt.price, pkt.qty, pkt.exchangeId⟩] := by
        simp [MdPacket.print, hside]
      rw [hprint]
      by_cases hof : PrintOf symbol ⟨pkt.symbol, pkt.price, pkt.qty, pkt.exchangeId⟩
      · have htrade : IsTradeOf symbol pkt := ⟨hof.1, hof.2, hside⟩
        simp [printsOf, htrade, hof]
      · have htrade : ¬ IsTradeOf symbol pkt := fun h => hof ⟨h.1, h.2.1⟩
        simp [printsOf, htrade, hof]
    · have htrade : ¬ IsTradeOf symbol pkt := fun h => hside h.2.2
      simp [printsOf, htrade, MdPacket.print, hside]

/-- The server takes the print of a trade for one of its symbol. -/
lemma printOf_print {f : Fill} (hsymbol : TextFits 8 f.symbol) (hid : TextFits 16 f.exchangeId)
    (symbol : String) : PrintOf symbol f.print ↔ f.symbol = symbol := by
  rw [PrintOf, Fill.print, decode_fillFixed hsymbol, decode_fillFixed hid]
  simp

/-- **The prints of a symbol are its tape**, when the texts of the trades fit. -/
lemma printsOf_told {told : List Fill} {m : MarketDataPublisher}
    (hprints : m.prints = told.map Fill.print)
    (hfits : ∀ f ∈ told, TextFits 8 f.symbol ∧ TextFits 16 f.exchangeId) (symbol : String) :
    printsOf symbol m.sent = tapeOf symbol (told.map Fill.entry) := by
  have hsent : m.sent.filterMap MdPacket.print = told.map Fill.print := hprints
  rw [printsOf_eq, hsent, tapeOf, List.filter_map, List.filter_map, List.map_map, List.map_map]
  refine congrArg₂ _ rfl (List.filter_congr fun f hf => ?_)
  obtain ⟨hsymbol, hid⟩ := hfits f hf
  have hiff := printOf_print hsymbol hid symbol
  have hentry : f.entry.symbol = some symbol ↔ f.symbol = symbol := Option.some_inj
  rw [Function.comp_apply, Function.comp_apply, decide_eq_decide, hiff, hentry]

/-- What is shown of trades: those with a quantity. -/
def shownPrices (trades : List (Price × ℤ)) : List Price :=
  (trades.filter fun t => 0 < t.2).map Prod.fst

/-- The history of a tape of which the first trades have been written. -/
def historyOf (tape : List (Price × ℤ)) (written : ℕ) : List (Price × ℤ) :=
  (tape.take written).rtake 500

/-- The number of trades that have been written, of a tape; all of them, when nothing is missed. -/
structure Written (seamless : Prop) (tape : List (Price × ℤ)) (i : ℕ) : Prop where
  le : i ≤ tape.length
  all : seamless → i = tape.length

lemma Written.append {seamless : Prop} {tape more : List (Price × ℤ)} {i : ℕ}
    (h : Written seamless tape i) (hmore : seamless → more = []) :
    Written seamless (tape ++ more) i ∧ historyOf (tape ++ more) i = historyOf tape i := by
  refine ⟨⟨?_, fun hs => ?_⟩, ?_⟩
  · rw [List.length_append]
    exact h.le.trans (Nat.le_add_right _ _)
  · rw [hmore hs, List.append_nil]
    exact h.all hs
  · rw [historyOf, List.take_append_of_le_length h.le, historyOf]

/-! ## What the gateway loads -/

/-- The trades that the gateway loads for its answers, with a clock that has advanced from row to
row. -/
def LoadsHistory (e : System) (trades : String → List HistoricalTrade) : Prop :=
  match e.gateway.persistence with
  | none => ∀ symbol, trades symbol = []
  | some p => ∃ rows : List StampedRow, rows.map StampedRow.row = p.db.events ∧
      rows.Pairwise (·.ts < ·.ts) ∧ ∀ symbol, trades symbol = loadHistoricalTrades rows symbol 500

/-- Every trade has been written. -/
def AllWritten (e : System) : Prop :=
  ∃ p ∈ e.gateway.persistence, p.queue.filterMap PersistenceEvent.trade = []

section Run

variable {cfg : Config} {es : List Action} {e : System}

/-- The texts of all trades fit. -/
lemma fits_of_run (hcfg : ∀ sym ∈ cfg.symbols, TextFits 8 sym)
    (h : System.RunTo cfg System.Any es e) (hseq : e.gateway.orderSeq ≤ 2147483647) :
    ∀ f ∈ (System.start cfg).passedOn es, f.symbol ∈ e.engine.books ∧ TextFits 8 f.symbol ∧
      TextFits 16 f.exchangeId := by
  intro f hf
  have hmade : f ∈ (System.start cfg).trades es := by
    rw [System.trades_of_run .fresh h]
    exact List.mem_append_left _ hf
  obtain ⟨hsymbol, k, hk, hid⟩ := System.trades_of_mem h hmade
  have hadmitted : System.BooksAdmitted cfg e.engine :=
    h.invariant (I := fun s => System.BooksAdmitted cfg s.engine)
      System.StartsOn.fresh.booksAdmitted
      fun _ _ _ _ _ hi _ hstep => System.booksAdmitted_step hstep hi
  refine ⟨hsymbol, (hadmitted _ hsymbol).elim (hcfg _) id, ?_⟩
  rw [hid]
  exact textFits_exchangeId (hk.trans hseq)

/-- The feed has the tape. -/
lemma printsOf_run (hcfg : ∀ sym ∈ cfg.symbols, TextFits 8 sym)
    (h : System.RunTo cfg System.Any es e) (hseq : e.gateway.orderSeq ≤ 2147483647)
    (symbol : String) : printsOf symbol e.gateway.publisher.sent
      = tapeOf symbol (((System.start cfg).passedOn es).map Fill.entry) :=
  printsOf_told (System.oneTape_of_run .fresh h).prints
    (fun f hf => (fits_of_run hcfg h hseq f hf).2) symbol

/-- The feed has printed nothing in a symbol without a book. -/
lemma printsOf_of_no_book (hcfg : ∀ sym ∈ cfg.symbols, TextFits 8 sym)
    (h : System.RunTo cfg System.Any es e) (hseq : e.gateway.orderSeq ≤ 2147483647)
    (hbook : symbol ∉ e.engine.books) : printsOf symbol e.gateway.publisher.sent = [] := by
  rw [printsOf_run hcfg h hseq, tapeOf, List.map_eq_nil_iff, List.filter_eq_nil_iff]
  intro entry hentry heq
  obtain ⟨f, hf, rfl⟩ := List.mem_map.mp hentry
  have hsymbol : f.symbol = symbol := Option.some.inj (of_decide_eq_true heq)
  exact hbook (hsymbol ▸ (fits_of_run hcfg h hseq f hf).1)

lemma tapeOf_append (symbol : String) (tape tape' : List TapeEntry) :
    tapeOf symbol (tape ++ tape') = tapeOf symbol tape ++ tapeOf symbol tape' := by
  rw [tapeOf, List.filter_append, List.map_append]
  rfl

/-- **What is loaded** is the history of the tape of which a part has been written. -/
lemma history_of_run (hcfg : ∀ sym ∈ cfg.symbols, TextFits 8 sym)
    (h : System.RunTo cfg System.Any es e) (hseq : e.gateway.orderSeq ≤ 2147483647)
    {trades : String → List HistoricalTrade} (hload : LoadsHistory e trades) {seamless : Prop}
    (hall : seamless → AllWritten e) (symbol : String) :
    ∃ i, Written seamless (printsOf symbol e.gateway.publisher.sent) i ∧
      (trades symbol).map (fun t => (t.price, t.qty))
        = historyOf (printsOf symbol e.gateway.publisher.sent) i := by
  rw [printsOf_run hcfg h hseq]
  cases hp : e.gateway.persistence with
  | none =>
    simp only [LoadsHistory, hp] at hload
    refine ⟨0, ⟨Nat.zero_le _, fun hs => ?_⟩, by simp [hload, historyOf]⟩
    obtain ⟨p, hmem, -⟩ := hall hs
    exact absurd (hp.symm.trans hmem) (by simp)
  | some p =>
    simp only [LoadsHistory, hp] at hload
    obtain ⟨rows, hrows, hclock, htrades⟩ := hload
    have hdatabase := (System.oneTape_of_run .fresh h).database p hp
    have hempty : Database.empty.tape = [] := rfl
    rw [hempty, List.nil_append] at hdatabase
    have htape : tapeOf symbol (((System.start cfg).passedOn es).map Fill.entry)
        = tapeOf symbol p.db.tape
          ++ tapeOf symbol ((p.queue.filterMap PersistenceEvent.trade).map Fill.entry) := by
      rw [hdatabase, tapeOf_append]
    refine ⟨(tapeOf symbol p.db.tape).length, ⟨?_, fun hs => ?_⟩, ?_⟩
    · rw [htape, List.length_append]
      exact Nat.le_add_right _ _
    · obtain ⟨p', hp', hqueue⟩ := hall hs
      obtain rfl := Option.some.inj (hp.symm.trans hp')
      rw [htape, hqueue]
      simp [tapeOf]
    · rw [historyOf, htape, List.take_left, htrades, loadHistoricalTrades_eq hclock,
        ← tape_of_rows hrows]
      simp only [List.rtake, List.map_drop, List.length_map]

end Run

/-! ## Starts in good time -/

/-- The server can read the time of a trade. -/
def Wire.Dates (w : Wire) (t : HistoricalTrade) : Prop :=
  w.fmt.date t.ts ≠ [] ∧ w.fmt.time t.ts ≠ [] ∧
    (w.strptime (w.fmt.date t.ts ++ w.fmt.time t.ts)).isSome

instance (w : Wire) (t : HistoricalTrade) : Decidable (w.Dates t) :=
  inferInstanceAs (Decidable (_ ∧ _ ∧ _))

/-- What the server reads of a history. -/
lemma values_readTrade {w : Wire} {trades : List HistoricalTrade} (h : ∀ t ∈ trades, w.Dates t) :
    (trades.filterMap (readTrade w.strptime w.fmt)).map TradePoint.value
      = shownPrices (trades.map fun t => (t.price, t.qty)) := by
  induction trades with
  | nil => rfl
  | cons t trades ih =>
    obtain ⟨hdate, htime, hread⟩ := h t List.mem_cons_self
    have ih := ih fun t' ht' => h t' (List.mem_cons_of_mem _ ht')
    obtain ⟨time, htime'⟩ := Option.isSome_iff_exists.mp hread
    by_cases hqty : 0 < t.qty
    · have hone : readTrade w.strptime w.fmt t = some ⟨time, t.price⟩ := by
        rw [readTrade, if_pos ⟨hqty, hdate, htime⟩, htime']
        rfl
      rw [List.filterMap_cons_some hone, List.map_cons, ih]
      simp [shownPrices, hqty]
    · have hnone : readTrade w.strptime w.fmt t = none := if_neg fun hread => hqty hread.1
      rw [List.filterMap_cons_none hnone, ih]
      simp [shownPrices, hqty]

/-- The chart has points with these prices. -/
def Plots (chart : List TradePoint) (prices : List Price) : Prop :=
  ∃ points, Charted chart points ∧ points.map TradePoint.value = prices

lemma Plots.values {chart : List TradePoint} {prices : List Price} (h : Plots chart prices) :
    chart.map TradePoint.value = prices := by
  obtain ⟨points, hchart, rfl⟩ := h
  exact hchart.values

lemma Plots.increasing {chart : List TradePoint} {prices : List Price} (h : Plots chart prices) :
    (chart.map TradePoint.time).Pairwise (· < ·) := by
  obtain ⟨points, hchart, -⟩ := h
  exact hchart.increasing

lemma Plots.receive {m : MarketState} {prices : List Price} (h : Plots (m.chart symbol) prices)
    (now : ℚ) (pkt : MdPacket) :
    Plots ((m.receive now pkt).chart symbol) (prices ++ (printsOf symbol [pkt]).map Prod.fst) := by
  obtain ⟨points, hchart, rfl⟩ := h
  refine ⟨_, charted_receive symbol hchart now pkt, ?_⟩
  by_cases htrade : IsTradeOf symbol pkt <;> simp [printsOf, htrade]

namespace Startup

/-- The gateway answers with what the database has, in messages that the server can read; and the
server joins the group with all answers in its hands. -/
def Timely (w : Wire) (symbols : List String) (s : Startup) : StartupAction → Prop
  | .snapshot trades => s.exchange.gateway.orderSeq ≤ 2147483647 ∧ LoadsHistory s.exchange trades ∧
      ∀ kv ∈ s.exchange.engine.books.entries, kv.1 ∈ symbols →
        Legible w kv.1 kv.2 (trades kv.1) ∧ ∀ t ∈ trades kv.1, w.Dates t
  | .join => s.request = .answered []
  | _ => True

/-- Every trade has been written when the engine takes the snapshots, and nothing is sent about the
symbols as long as the server is midway. -/
def Seamless (symbols : List String) (s : Startup) : StartupAction → Prop
  | .exchange a => s.Midway → SilentAbout symbols s.exchange a
  | .snapshot _ => AllWritten s.exchange
  | _ => True

/-- The trades that the feed has printed of a symbol. -/
def tape (s : Startup) (symbol : String) : List (Price × ℤ) :=
  printsOf symbol s.exchange.gateway.publisher.sent

/-- A message with a part of the tape. -/
def Tells (w : Wire) (seamless : Prop) (s : Startup) (reply : String × List (Text × Text)) : Prop :=
  ∃ b trades i, reply.2 = w.reply reply.1 b trades ∧ Legible w reply.1 b trades ∧
    (∀ t ∈ trades, w.Dates t) ∧ Written seamless (s.tape reply.1) i ∧
    trades.map (fun t => (t.price, t.qty)) = historyOf (s.tape reply.1) i

/-- The charts of the server, from its start on. -/
structure Charting (w : Wire) (symbols : List String) (seamless : Prop) (s : Startup) : Prop where
  asked : ∀ symbol ∈ symbols, symbol ∈ s.market.subscriber.orderBook
  unanswered : ¬ s.request.Answered → s.joined = none ∧
    ∀ symbol ∈ symbols, s.market.tradeHistory.lookup symbol = none
  replies : ∀ rs, s.request = .answered rs → ∀ reply ∈ rs, reply.1 ∈ symbols ∧
    s.Tells w seamless reply ∧ s.market.tradeHistory.lookup reply.1 = none
  seeded : s.joined = none → ∀ rs, s.request = .answered rs → ∀ symbol ∈ symbols,
    (∀ reply ∈ rs, reply.1 ≠ symbol) → ∃ i, Written seamless (s.tape symbol) i ∧
      Plots (s.market.chart symbol) (shownPrices (historyOf (s.tape symbol) i))
  live : ∀ n, s.joined = some n → s.request = .answered [] ∧
    n ≤ s.exchange.gateway.publisher.sent.length ∧ ∀ symbol ∈ symbols, ∃ i j, i ≤ j ∧
      (seamless → i = j) ∧ j ≤ (printsOf symbol (s.exchange.gateway.publisher.sent.take n)).length ∧
      Plots (s.market.chart symbol) (shownPrices (historyOf (s.tape symbol) i) ++
        ((printsOf symbol (s.exchange.gateway.publisher.sent.take n)).drop j).map Prod.fst)

section Steps

variable {w : Wire} {symbols : List String} {seamless : Prop} {s s' : Startup} {cfg : Config}

lemma charting_start (w : Wire) (symbols : List String) (seamless : Prop) (cfg : Config) :
    (start cfg symbols).Charting w symbols seamless :=
  ⟨fun _ h => mem_orderBook_init h, fun _ => ⟨rfl, fun _ _ => rfl⟩,
    fun rs h => absurd h (by simp [start]), fun _ rs h => absurd h (by simp [start]),
    fun n h => absurd h (by simp [start])⟩

/-- The charts stay as they are when the exchange sends more packets. -/
lemma Charting.exchange (h : s.Charting w symbols seamless) {e : System} {pkts : List MdPacket}
    (hsent : e.gateway.publisher.sent = s.exchange.gateway.publisher.sent ++ pkts)
    (hsilent : seamless → s.Midway → ∀ symbol ∈ symbols, printsOf symbol pkts = []) :
    ({ s with exchange := e } : Startup).Charting w symbols seamless := by
  have htape : ∀ symbol, ({ s with exchange := e } : Startup).tape symbol
      = s.tape symbol ++ printsOf symbol pkts := by
    intro symbol
    rw [tape, hsent, printsOf_append]
    rfl
  have hwritten : s.request.Answered → s.joined = none → ∀ symbol ∈ symbols, ∀ i,
      Written seamless (s.tape symbol) i →
        Written seamless (({ s with exchange := e } : Startup).tape symbol) i ∧
          historyOf (({ s with exchange := e } : Startup).tape symbol) i
            = historyOf (s.tape symbol) i := by
    intro hanswered hjoined symbol hsymbol i hi
    rw [htape]
    refine hi.append fun hs => hsilent hs ⟨Or.inl hanswered, fun hsettled => ?_⟩ symbol hsymbol
    exact absurd hsettled.2 (by simp [hjoined])
  have hanswered : ∀ rs, s.request = .answered rs → s.request.Answered := by
    intro rs hrequest
    rw [hrequest]
    trivial
  refine ⟨h.asked, h.unanswered, fun rs hrequest reply hreply => ?_,
    fun hjoined rs hrequest symbol hsymbol hnone => ?_, fun n hjoined => ?_⟩
  · obtain ⟨hsymbol, ⟨b, trades, i, hbody, hlegible, hdates, hi, htrades⟩, hlookup⟩ :=
      h.replies rs hrequest reply hreply
    have hjoined : s.joined = none := by
      by_contra hne
      obtain ⟨n, hn⟩ := Option.ne_none_iff_exists'.mp hne
      obtain rfl := SnapshotRequest.answered.inj (hrequest.symm.trans (h.live n hn).1)
      exact absurd hreply List.not_mem_nil
    obtain ⟨hi', heq⟩ := hwritten (hanswered rs hrequest) hjoined _ hsymbol i hi
    exact ⟨hsymbol, ⟨b, trades, i, hbody, hlegible, hdates, hi', htrades.trans heq.symm⟩, hlookup⟩
  · obtain ⟨i, hi, hplots⟩ := h.seeded hjoined rs hrequest symbol hsymbol hnone
    obtain ⟨hi', heq⟩ := hwritten (hanswered rs hrequest) hjoined symbol hsymbol i hi
    exact ⟨i, hi', by rw [heq]; exact hplots⟩
  · obtain ⟨hrequest, hn, hcharts⟩ := h.live n hjoined
    refine ⟨hrequest, ?_, fun symbol hsymbol => ?_⟩
    · rw [hsent, List.length_append]
      exact hn.trans (Nat.le_add_right _ _)
    · obtain ⟨i, j, hij, hs, hj, hplots⟩ := hcharts symbol hsymbol
      have htake : e.gateway.publisher.sent.take n
          = s.exchange.gateway.publisher.sent.take n := by
        rw [hsent, List.take_append_of_le_length hn]
      have hprefix : (printsOf symbol (s.exchange.gateway.publisher.sent.take n)).length
          ≤ (s.tape symbol).length := by
        rw [tape, ← List.take_append_drop n s.exchange.gateway.publisher.sent, printsOf_append,
          List.take_append_drop, List.length_append]
        exact Nat.le_add_right _ _
      have hhistory : historyOf (({ s with exchange := e } : Startup).tape symbol) i
          = historyOf (s.tape symbol) i := by
        rw [htape, historyOf, List.take_append_of_le_length (hij.trans (hj.trans hprefix)),
          historyOf]
      refine ⟨i, j, hij, hs, ?_, ?_⟩
      · show j ≤ (printsOf symbol (e.gateway.publisher.sent.take n)).length
        rw [htake]
        exact hj
      · show Plots (s.market.chart symbol) (shownPrices (historyOf _ i) ++
          ((printsOf symbol (e.gateway.publisher.sent.take n)).drop j).map Prod.fst)
        rw [htake, hhistory]
        exact hplots

/-- The request moves, but is not answered yet. -/
lemma Charting.unanswered_request (h : s.Charting w symbols seamless) (hs : ¬ s.request.Answered)
    {r : SnapshotRequest} (hr : ¬ r.Answered) :
    ({ s with request := r } : Startup).Charting w symbols seamless := by
  have hnot : ∀ rs, r ≠ .answered rs := fun rs heq => hr (by rw [heq]; trivial)
  refine ⟨h.asked, fun _ => h.unanswered hs, fun rs hrequest => absurd hrequest (hnot rs),
    fun _ rs hrequest => absurd hrequest (hnot rs), fun n hjoined => ?_⟩
  exact absurd (hjoined.symm.trans (h.unanswered hs).1) (by simp)

/-- The engine thread takes the snapshots. -/
lemma Charting.snapshot (h : s.Charting w symbols seamless) {es : List Action}
    (hcfg : ∀ sym ∈ cfg.symbols, TextFits 8 sym) (hrun : System.RunTo cfg System.Any es s.exchange)
    (hunanswered : ¬ s.request.Answered) {trades : String → List HistoricalTrade}
    (hok : s.Timely w symbols (.snapshot trades)) (hall : seamless → AllWritten s.exchange) :
    ({ s with request := .answered (answers w symbols s.exchange.engine trades) } :
      Startup).Charting w symbols seamless := by
  obtain ⟨hseq, hload, hanswers⟩ := hok
  obtain ⟨hjoined, hblank⟩ := h.unanswered hunanswered
  refine ⟨h.asked, fun hnot => absurd trivial hnot, fun rs hrequest reply hreply => ?_,
    fun _ rs hrequest symbol hsymbol hnone => ?_,
    fun n hn => absurd (hn.symm.trans hjoined) (by simp)⟩
  · obtain rfl := SnapshotRequest.answered.inj hrequest
    obtain ⟨⟨symbol, b⟩, hmem, rfl⟩ := List.mem_map.mp hreply
    obtain ⟨hentry, hsymbol⟩ := List.mem_filter.mp hmem
    have hsymbol : symbol ∈ symbols := by simpa using hsymbol
    obtain ⟨hlegible, hdates⟩ := hanswers _ hentry hsymbol
    obtain ⟨i, hi, htrades⟩ := history_of_run hcfg hrun hseq hload hall symbol
    exact ⟨hsymbol, ⟨b, trades symbol, i, rfl, hlegible, hdates, hi, htrades⟩,
      hblank symbol hsymbol⟩
  · -- a symbol without a book has not been traded
    obtain rfl := SnapshotRequest.answered.inj hrequest
    have hbook : symbol ∉ s.exchange.engine.books := by
      intro hmem
      obtain ⟨b, hb⟩ := Option.isSome_iff_exists.mp (AList.lookup_isSome.mpr hmem)
      refine hnone (symbol, w.reply symbol b (trades symbol)) ?_ rfl
      refine List.mem_map.mpr ⟨⟨symbol, b⟩, List.mem_filter.mpr ⟨?_, by simpa using hsymbol⟩, rfl⟩
      exact AList.mem_lookup_iff.mp hb
    have hempty : s.tape symbol = [] := printsOf_of_no_book hcfg hrun hseq hbook
    refine ⟨0, ⟨Nat.zero_le _, fun _ => ?_⟩, [], ?_, ?_⟩
    · show 0 = (s.tape symbol).length
      rw [hempty]
      rfl
    · rw [MarketState.chart, hblank symbol hsymbol, Option.getD_none]
      exact ⟨rfl, rfl⟩
    · simp [historyOf, shownPrices]

/-- An answer for another symbol. -/
lemma tradeHistory_of_ne {m : MarketState} {symbol' : String} {p : Parsed Price}
    (hsymbol : p.fields.lookup "55".toList = some symbol'.toList) (hne : symbol ≠ symbol') :
    (processMdSnapshot w.strptime m p).tradeHistory.lookup symbol
      = m.tradeHistory.lookup symbol := by
  simp only [processMdSnapshot, hsymbol, Option.getD_some, String.ofList_toList]
  split_ifs
  · rfl
  · exact AList.lookup_insert_ne hne
  · rfl

lemma asked_process {m : MarketState} (p : Parsed Price)
    (h : symbol ∈ m.subscriber.orderBook) :
    symbol ∈ (processMdSnapshot w.strptime m p).subscriber.orderBook := by
  simp only [processMdSnapshot]
  split_ifs
  · exact (AList.mem_insert _).mpr (Or.inr h)
  · exact (AList.mem_insert _).mpr (Or.inr h)
  · exact h

/-- The server gets an answer. -/
lemma Charting.receive (h : s.Charting w symbols seamless) {rs : List (String × List (Text × Text))}
    (hrequest : s.request = .answered rs) {symbol : String} {body : List (Text × Text)}
    (hbody : rs.lookup symbol = some body) {p : Parsed Price}
    (hp : parseFields w.py (rawMessage body) = some p) :
    ({ s with
      request := .answered (rs.filter fun reply => reply.1 ≠ symbol)
      market := processMdSnapshot w.strptime s.market p } : Startup).Charting w symbols
        seamless := by
  have hmem : (symbol, body) ∈ rs := by
    obtain ⟨l, l', rfl, -⟩ := List.lookup_eq_some_iff.mp hbody
    simp
  obtain ⟨hsymbol, ⟨b, trades, i, hreply, hlegible, hdates, hi, htrades⟩, hlookup⟩ :=
    h.replies rs hrequest _ hmem
  obtain rfl : body = w.reply symbol b trades := hreply
  obtain ⟨p', hp', hname, hentries⟩ := parseFields_snapshot hlegible.orders hlegible.history
    (m := ⟨w.reply symbol b trades, hlegible.ascii, hlegible.noSep⟩) rfl
  obtain rfl : p = p' := Option.some.inj (hp.symm.trans hp')
  have hjoined : s.joined = none := by
    by_contra hne
    obtain ⟨n, hn⟩ := Option.ne_none_iff_exists'.mp hne
    obtain rfl := SnapshotRequest.answered.inj (hrequest.symm.trans (h.live n hn).1)
    exact absurd hmem List.not_mem_nil
  refine ⟨fun sym hsym => asked_process p (h.asked sym hsym), fun hnot => absurd trivial hnot,
    fun rs' hrequest' reply hreply => ?_, fun _ rs' hrequest' sym hsym hnone => ?_,
    fun n hn => absurd (hn.symm.trans hjoined) (by simp)⟩
  · obtain rfl := SnapshotRequest.answered.inj hrequest'
    obtain ⟨hreply, hne⟩ := List.mem_filter.mp hreply
    obtain ⟨hsym, htells, hother⟩ := h.replies rs hrequest reply hreply
    exact ⟨hsym, htells, (tradeHistory_of_ne hname (by simpa using hne)).trans hother⟩
  · obtain rfl := SnapshotRequest.answered.inj hrequest'
    by_cases heq : sym = symbol
    · subst heq
      refine ⟨i, hi, _, charted_snapshot w.strptime sym hname hentries (h.asked sym hsym) hlookup,
        ?_⟩
      rw [values_readTrade hdates, htrades]
      rfl
    · obtain ⟨k, hk, hplots⟩ := h.seeded hjoined rs hrequest sym hsym fun reply hreply hsame =>
        hnone reply (List.mem_filter.mpr ⟨hreply, by simpa [hsame] using heq⟩) hsame
      refine ⟨k, hk, ?_⟩
      rw [MarketState.chart, tradeHistory_of_ne hname heq]
      exact hplots

/-- The server joins the group. -/
lemma Charting.join (h : s.Charting w symbols seamless) (hjoined : s.joined = none)
    (hrequest : s.request = .answered []) :
    ({ s with joined := some s.exchange.gateway.publisher.sent.length } : Startup).Charting w
      symbols seamless := by
  refine ⟨h.asked, fun hnot => absurd (by rw [hrequest]; trivial) hnot, h.replies,
    fun hnone => absurd hnone (by simp), fun n hn => ?_⟩
  obtain rfl := Option.some.inj hn
  refine ⟨hrequest, le_refl _, fun symbol hsymbol => ?_⟩
  obtain ⟨i, hi, hplots⟩ := h.seeded hjoined [] hrequest symbol hsymbol fun reply hreply =>
    absurd hreply List.not_mem_nil
  refine ⟨i, (s.tape symbol).length, hi.le, hi.all, ?_, ?_⟩
  · rw [List.take_length]
    exact le_refl _
  · have hnone : (printsOf symbol s.exchange.gateway.publisher.sent).drop (s.tape symbol).length
        = [] := List.drop_length
    rw [List.take_length, hnone, List.map_nil, List.append_nil]
    exact hplots

/-- The server gets a packet. -/
lemma Charting.deliver (h : s.Charting w symbols seamless) {n : ℕ} (hjoined : s.joined = some n)
    {pkt : MdPacket} (hpkt : s.exchange.gateway.publisher.sent[n]? = some pkt) (now : ℚ) :
    ({ s with joined := some (n + 1), market := s.market.receive now pkt } : Startup).Charting w
      symbols seamless := by
  obtain ⟨hrequest, hn, hcharts⟩ := h.live n hjoined
  refine ⟨fun symbol hsymbol => ?_, fun hnot => absurd (by rw [hrequest]; trivial) hnot,
    fun rs hrs reply hreply => ?_, fun hnone => absurd hnone (by simp), fun n' hn' => ?_⟩
  · rw [subscriber_receive]
    exact mem_orderBook_receive (h.asked symbol hsymbol) pkt
  · obtain rfl := SnapshotRequest.answered.inj (hrequest.symm.trans hrs)
    exact absurd hreply List.not_mem_nil
  · obtain rfl := Option.some.inj hn'
    refine ⟨hrequest, (List.getElem?_eq_some_iff.mp hpkt).1, fun symbol hsymbol => ?_⟩
    obtain ⟨i, j, hij, hs, hj, hplots⟩ := hcharts symbol hsymbol
    have htake : printsOf symbol (s.exchange.gateway.publisher.sent.take (n + 1))
        = printsOf symbol (s.exchange.gateway.publisher.sent.take n) ++ printsOf symbol [pkt] := by
      rw [List.take_add_one, hpkt, Option.toList_some, printsOf_append]
    refine ⟨i, j, hij, hs, ?_, ?_⟩
    · rw [htake, List.length_append]
      exact hj.trans (Nat.le_add_right _ _)
    · rw [htake, List.drop_append_of_le_length hj, List.map_append, ← List.append_assoc]
      exact hplots.receive now pkt

/-- **Every step keeps the charts right.** -/
theorem Charting.step (h : s.Charting w symbols seamless) {es : List Action}
    (hcfg : ∀ sym ∈ cfg.symbols, TextFits 8 sym) (hrun : System.RunTo cfg System.Any es s.exchange)
    {a : StartupAction} (hok : s.Timely w symbols a) (hall : seamless → s.Seamless symbols a)
    (hstep : s.step w symbols a = some s') : s'.Charting w symbols seamless := by
  cases a with
  | exchange a =>
    obtain ⟨e, he, hs'⟩ := exchangeStep_cases hstep
    obtain ⟨pkts, hsent, hsilent⟩ := exists_sent symbols (System.sound_of_run hrun) he
    have hmore := h.exchange hsent fun hs hmid symbol hsymbol => by
      rw [printsOf, List.map_eq_nil_iff, List.filter_eq_nil_iff]
      intro pkt hpkt htrade
      have htrade : IsTradeOf symbol pkt := of_decide_eq_true htrade
      exact hsilent (hall hs hmid) pkt hpkt ⟨symbol, htrade.1, hsymbol⟩
    obtain rfl | ⟨hunanswered, ahead, rfl⟩ := hs'
    · exact hmore
    · exact hmore.unanswered_request hunanswered fun h => h
  | request =>
    obtain ⟨hunanswered, ahead, rfl⟩ := step_request hstep
    exact h.unanswered_request hunanswered fun h => h
  | snapshot trades =>
    obtain ⟨hunanswered, -, rfl⟩ := step_snapshot hstep
    exact h.snapshot hcfg hrun hunanswered hok hall
  | receive symbol =>
    obtain ⟨rs, body, p, hrequest, hbody, hp, rfl⟩ := step_receive hstep
    exact h.receive hrequest hbody hp
  | join =>
    obtain ⟨hjoined, rfl⟩ := step_join hstep
    exact h.join hjoined hok
  | deliver now =>
    obtain ⟨n, pkt, hjoined, hpkt, rfl⟩ := step_deliver hstep
    exact h.deliver hjoined hpkt now

/-- The steps that the exchange has taken. -/
def exchangeActions (as : List StartupAction) : List Action :=
  as.filterMap fun
    | .exchange a => some a
    | _ => none

/-- The exchange goes through a run of its own. -/
lemma exchangeActions_run {ok : Startup → StartupAction → Prop} {as : List StartupAction}
    (h : RunTo w symbols cfg ok as s) :
    System.RunTo cfg System.Any (exchangeActions as) s.exchange := by
  refine h.invariant_history
    (I := fun as s => System.RunTo cfg System.Any (exchangeActions as) s.exchange) .refl
    fun as t a u _ ht _ hstep => ?_
  rw [exchangeActions, List.filterMap_append, ← exchangeActions]
  cases a with
  | exchange a =>
    obtain ⟨e, he, rfl | ⟨-, ahead, rfl⟩⟩ := exchangeStep_cases hstep <;>
      exact ht.snoc trivial he
  | request =>
    obtain ⟨-, ahead, rfl⟩ := step_request hstep
    simpa using ht
  | snapshot trades =>
    obtain ⟨-, -, rfl⟩ := step_snapshot hstep
    simpa using ht
  | receive symbol =>
    obtain ⟨rs, body, p, -, -, -, rfl⟩ := step_receive hstep
    simpa using ht
  | join =>
    obtain ⟨-, rfl⟩ := step_join hstep
    simpa using ht
  | deliver now =>
    obtain ⟨n, pkt, -, -, rfl⟩ := step_deliver hstep
    simpa using ht

lemma charting_of_run {as : List StartupAction} (hcfg : ∀ sym ∈ cfg.symbols, TextFits 8 sym)
    (h : RunTo w symbols cfg
      (fun s a => s.Timely w symbols a ∧ (seamless → s.Seamless symbols a)) as s) :
    s.Charting w symbols seamless :=
  h.invariant (charting_start w symbols seamless cfg) fun _ _ _ _ hrun ht hok hstep =>
    ht.step hcfg (exchangeActions_run hrun) hok.1 hok.2 hstep

end Steps

/-- **The chart follows the tape.**  In every run in which the server joins the group with all
answers in its hands, the chart of each of its symbols is strictly increasing; and it is made of a
history, which are the last trades among the first ones of the tape, and of trades that have been
printed later.  When every trade had been written before the engine took the snapshots, and none was
printed before the server joined, the second part goes on where the first one ends; and when all
packets have been delivered, it goes to the end of the tape. -/
theorem chart_follows_tape {w : Wire} {symbols : List String} {cfg : Config}
    {as : List StartupAction} {s : Startup} {symbol : String} {n : ℕ}
    (hcfg : ∀ sym ∈ cfg.symbols, TextFits 8 sym)
    (h : RunTo w symbols cfg (Timely w symbols) as s)
    (hseq : s.exchange.gateway.orderSeq ≤ 2147483647) (hsymbol : symbol ∈ symbols)
    (hjoined : s.joined = some n) :
    ((s.market.chart symbol).map TradePoint.time).Pairwise (· < ·) ∧
      ∃ tape, tape = tapeOf symbol
          (((System.start cfg).passedOn (exchangeActions as)).map Fill.entry) ∧
        ∃ i j k, i ≤ j ∧ (RunTo w symbols cfg (Seamless symbols) as s → i = j) ∧
          (n = s.exchange.gateway.publisher.sent.length → j + k = tape.length) ∧
          (s.market.chart symbol).map TradePoint.value
            = shownPrices ((tape.take i).rtake 500) ++ ((tape.drop j).take k).map Prod.fst := by
  have hcharting : s.Charting w symbols (RunTo w symbols cfg (Seamless symbols) as s) := by
    by_cases hseamless : RunTo w symbols cfg (Seamless symbols) as s
    · refine charting_of_run hcfg ((h.and hseamless).2.mono fun t a hok => ⟨hok.1, fun _ => hok.2⟩)
    · exact charting_of_run hcfg (h.mono fun t a hok => ⟨hok, fun hs => absurd hs hseamless⟩)
  have htape := printsOf_run hcfg (exchangeActions_run h) hseq symbol
  obtain ⟨-, hn, hcharts⟩ := hcharting.live n hjoined
  obtain ⟨i, j, hij, hs, hj, hplots⟩ := hcharts symbol hsymbol
  refine ⟨hplots.increasing, _, rfl, i, j,
    (printsOf symbol (s.exchange.gateway.publisher.sent.take n)).length - j, hij, hs,
    fun hall => ?_, ?_⟩
  · rw [hall, List.take_length] at hj ⊢
    rw [← htape]
    exact Nat.add_sub_cancel' hj
  · -- what has been delivered is the first part of the tape
    have hprefix : (tapeOf symbol (((System.start cfg).passedOn (exchangeActions as)).map
        Fill.entry)).take (printsOf symbol (s.exchange.gateway.publisher.sent.take n)).length
          = printsOf symbol (s.exchange.gateway.publisher.sent.take n) := by
      rw [← htape, ← List.take_append_drop n s.exchange.gateway.publisher.sent, printsOf_append,
        List.take_append_drop, List.take_left]
    rw [hplots.values, ← List.drop_take, hprefix, ← htape]
    rfl

/-! ## A chart with a history -/

/-- The step neither takes the snapshots nor joins the group too early. -/
def InTime (s : Startup) : StartupAction → Prop
  | .snapshot _ => False
  | .join => s.request = .answered []
  | .exchange _ | .request | .receive _ | .deliver _ => True

instance (s : Startup) : (a : StartupAction) → Decidable (s.InTime a)
  | .snapshot _ => isFalse fun h => h
  | .join => inferInstanceAs (Decidable (_ = _))
  | .exchange _ | .request | .receive _ | .deliver _ => isTrue trivial

lemma InTime.timely {w : Wire} {symbols : List String} {s : Startup} {a : StartupAction}
    (h : s.InTime a) : s.Timely w symbols a := by
  cases a with
  | snapshot trades => exact h.elim
  | join => exact h
  | exchange | request | receive | deliver => trivial

/-- Two orders rest, and the first one trades, before the server asks for snapshots; the database
gets as far as the trade. -/
def earlySteps : List StartupAction :=
  exchangeSteps (FixExchange.Sample.submit (FixExchange.Sample.limit "a" '2' 3 10)
      FixExchange.Sample.alice ++ FixExchange.Sample.engine 2 ++
    FixExchange.Sample.submit (FixExchange.Sample.limit "b" '2' 4 11)
      FixExchange.Sample.alice ++ FixExchange.Sample.engine 2 ++
    FixExchange.Sample.submit (FixExchange.Sample.limit "c" '1' 3 10)
      FixExchange.Sample.bob ++ FixExchange.Sample.engine 6 ++ List.replicate 4 .persist) ++
    [.request]

/-- The server starts, and the second order trades. -/
def lateSteps : List StartupAction :=
  [.receive "X", .join] ++
    exchangeSteps (FixExchange.Sample.submit (FixExchange.Sample.limit "d" '1' 2 11)
      FixExchange.Sample.bob ++ FixExchange.Sample.engine 6) ++
    List.replicate 2 (.deliver 0)

theorem chart_follows_tape_sample :
    ∃ trades s, RunTo sampleWire ["X"] FixExchange.Sample.config (Timely sampleWire ["X"])
        (earlySteps ++ [.snapshot trades] ++ lateSteps) s ∧ s.Done ∧
      ((s.market.chart "X").map TradePoint.time).Pairwise (· < ·) ∧
      (s.market.chart "X").map TradePoint.value = [10, 11] := by
  have hearly : ∃ s, Transition.Reaches (step sampleWire ["X"]) InTime
      (start FixExchange.Sample.config ["X"]) earlySteps s ∧
      ∃ p ∈ s.exchange.gateway.persistence,
        s.exchange.gateway.orderSeq ≤ 2147483647 ∧
        (stamped p.db.events).Pairwise (·.ts < ·.ts) ∧
        (∀ kv ∈ s.exchange.engine.books.entries, kv.1 ∈ ["X"] →
          Legible sampleWire kv.1 kv.2 (loadHistoricalTrades (stamped p.db.events) kv.1 500) ∧
            ∀ t ∈ loadHistoricalTrades (stamped p.db.events) kv.1 500, sampleWire.Dates t) ∧
        ∃ s' ∈ step sampleWire ["X"] s (.snapshot fun symbol =>
            loadHistoricalTrades (stamped p.db.events) symbol 500),
          Transition.Allowed (step sampleWire ["X"]) InTime s' lateSteps ∧
          (Transition.run (step sampleWire ["X"]) s' lateSteps).any (fun t =>
            decide (t.Done ∧ t.exchange.gateway.orderSeq ≤ 2147483647 ∧
              (t.market.chart "X").map TradePoint.value = [10, 11])) = true :=
    Transition.exists_reaches (by decide +kernel) (by decide +kernel)
  obtain ⟨s, hrun, p, hp, hseq, hclock, hread, s', hs', hok, hlate⟩ := hearly
  obtain ⟨t, ht, hresult⟩ := (Option.any_eq_true _ _).mp hlate
  obtain ⟨hdone, hids, hvalues⟩ := of_decide_eq_true hresult
  have hload : LoadsHistory s.exchange fun symbol =>
      loadHistoricalTrades (stamped p.db.events) symbol 500 := by
    rw [LoadsHistory, Option.mem_def.mp hp]
    exact ⟨_, stamped_row _, hclock, fun _ => rfl⟩
  have hsnapshot : s.Timely sampleWire ["X"] (.snapshot fun symbol =>
      loadHistoricalTrades (stamped p.db.events) symbol 500) := ⟨hseq, hload, hread⟩
  have hall : RunTo sampleWire ["X"] FixExchange.Sample.config (Timely sampleWire ["X"])
      (earlySteps ++ [.snapshot _] ++ lateSteps) t :=
    ((hrun.mono fun _ _ => InTime.timely).snoc hsnapshot hs').trans
      ((Transition.reaches_of_run ht hok).mono fun _ _ => InTime.timely)
  exact ⟨_, t, hall, hdone,
    (chart_follows_tape (by decide) hall hids List.mem_cons_self hdone.2.1).1, hvalues⟩

end Startup

end FixClient

end FixExchange
