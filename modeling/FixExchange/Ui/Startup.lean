/-
# The start of the user interface

`lifespan` of `ui/main.py` next to a running exchange.  The server asks for snapshots, which the
engine thread takes when it comes to the request in its queue; it waits for the answers, but not
longer than its timeout, and joins the multicast group, from where on it applies the packets that
are sent.  Nothing ties the snapshots to a packet: what is sent in between is missed.

In a run in which nothing is sent about the symbols in between, the server has the part of the
book that these symbols are (`Tracks`), of a subscriber that has heard all packets up to its own
position.
-/
import FixExchange.Ui.PartialBook
import FixExchange.Ui.TradeTimes

namespace FixExchange

namespace FixClient

/-- The numbers and the headers of messages. -/
structure Wire where
  py : PyFloat Price
  fmt : TextFormat
  strptime : Text → Option ℚ
  header : ∀ symbol, MdHeader symbol

/-- The body of the answer for the book of a symbol. -/
def Wire.reply (w : Wire) (symbol : String) (b : OrderBook) (trades : List HistoricalTrade) :
    List (Text × Text) :=
  (w.header symbol).fields ++ mdGroups w.fmt b.getOrders trades

/-- Where the request for snapshots is. -/
inductive SnapshotRequest
  | unsent
  /-- In the queue of the engine, behind other items. -/
  | queued (ahead : ℕ)
  /-- The engine has answered, with a message for each symbol; these are on their way. -/
  | answered (replies : List (String × List (Text × Text)))
deriving DecidableEq

/-- The engine has answered. -/
def SnapshotRequest.Answered : SnapshotRequest → Prop
  | .answered _ => True
  | _ => False

instance (r : SnapshotRequest) : Decidable r.Answered := by
  unfold SnapshotRequest.Answered
  split <;> infer_instance

/-- The exchange and the server. -/
structure Startup where
  exchange : System
  request : SnapshotRequest
  /-- The number of packets sent before the one that the socket delivers next, once it has joined
  the group. -/
  joined : Option ℕ
  market : MarketState

/-- A step of the exchange or of the server. -/
inductive StartupAction
  | exchange (a : Action)
  /-- The gateway gets the market data request. -/
  | request
  /-- The engine thread takes the snapshots, and the gateway sends the answers with the trades
  that it has loaded. -/
  | snapshot (trades : String → List HistoricalTrade)
  /-- The server gets the answer for a symbol. -/
  | receive (symbol : String)
  /-- The server joins the group: it has all answers, or has waited for too long. -/
  | join
  /-- The server gets the next packet. -/
  | deliver (now : ℚ)

namespace Startup

/-- The exchange before it has done anything, and the server before its start. -/
def start (cfg : Config) (symbols : List String) : Startup where
  exchange := System.start cfg
  request := .unsent
  joined := none
  market := ⟨Subscriber.init symbols, ∅⟩

/-- A step of the exchange; the request takes up a place in the queue, and its turn. -/
def exchangeStep (s : Startup) (a : Action) : Option Startup :=
  match s.request with
  | .queued ahead =>
    if a = .engine ∧ s.exchange.tasks = [] then
      if ahead = 0 then none
      else (s.exchange.step a).map fun e =>
        { s with exchange := e, request := .queued (ahead - 1) }
    else
      (s.exchange.step a).bind fun e =>
        if e.queue.length + 1 < System.queueSize then some { s with exchange := e } else none
  | _ => (s.exchange.step a).map fun e => { s with exchange := e }

/-- The answers for the symbols that were asked for. -/
def answers (w : Wire) (symbols : List String) (e : MatchingEngine)
    (trades : String → List HistoricalTrade) : List (String × List (Text × Text)) :=
  (e.books.entries.filter fun kv => kv.1 ∈ symbols).map fun kv =>
    (kv.1, w.reply kv.1 kv.2 (trades kv.1))

/-- One step. -/
def step (w : Wire) (symbols : List String) (s : Startup) : StartupAction → Option Startup
  | .exchange a => s.exchangeStep a
  | .request =>
    match s.request with
    | .unsent =>
      if symbols ≠ [] ∧ s.exchange.handler = .idle ∧
          s.exchange.queue.length + 1 < System.queueSize then
        some { s with request := .queued s.exchange.queue.length }
      else none
    | _ => none
  | .snapshot trades =>
    match s.request with
    | .queued 0 =>
      if s.exchange.tasks = [] then
        some { s with request := .answered (answers w symbols s.exchange.engine trades) }
      else none
    | _ => none
  | .receive symbol =>
    match s.request with
    | .answered replies =>
      (replies.lookup symbol).bind fun body =>
        (parseFields w.py (rawMessage body)).map fun p =>
          { s with
            request := .answered (replies.filter fun reply => reply.1 ≠ symbol)
            market := processMdSnapshot w.strptime s.market p }
    | _ => none
  | .join =>
    match s.joined, s.request with
    | none, .unsent =>
      if symbols = [] then
        some { s with joined := some s.exchange.gateway.publisher.sent.length }
      else none
    | none, _ => some { s with joined := some s.exchange.gateway.publisher.sent.length }
    | some _, _ => none
  | .deliver now =>
    s.joined.bind fun n =>
      (s.exchange.gateway.publisher.sent[n]?).map fun pkt =>
        { s with joined := some (n + 1), market := s.market.receive now pkt }

/-- `RunTo w symbols cfg ok as s`: the actions `as` lead from the start to `s`, and each of them
is allowed by `ok`. -/
abbrev RunTo (w : Wire) (symbols : List String) (cfg : Config)
    (ok : Startup → StartupAction → Prop) (as : List StartupAction) (s : Startup) : Prop :=
  Transition.Reaches (step w symbols) ok (start cfg symbols) as s

/-! ## Runs in which nothing is missed -/

/-- The server has begun to take over the book: the snapshots have been taken, or it has joined the
group.  It does not follow the book yet: it has not both got all answers and joined the group. -/
def Midway (s : Startup) : Prop :=
  (s.request.Answered ∨ s.joined.isSome) ∧ ¬(s.request = .answered [] ∧ s.joined.isSome)

instance (s : Startup) : Decidable s.Midway := inferInstanceAs (Decidable (_ ∧ ¬(_ ∧ _)))

/-- The step sends no packet about one of the symbols. -/
def SilentAbout (symbols : List String) (e : System) : Action → Prop
  | .engine =>
    match e.tasks with
    | [] => True
    | task :: _ => ∀ n ∈ task.notices e.gateway.active, ∀ symbol ∈ symbols,
        Subscriber.decode (fillFixed 8 n.symbol) ≠ some symbol
  | _ => True

/-- The answer for a book can be read by the server. -/
structure Legible (w : Wire) (symbol : String) (b : OrderBook) (trades : List HistoricalTrade) :
    Prop where
  orders : ∀ o ∈ b.getOrders, w.fmt.ReadsBack w.py o.price o.leavesQty
  history : ∀ t ∈ trades, w.fmt.ReadsBack w.py t.price t.qty
  ascii : ∀ f ∈ w.reply symbol b trades, IsAscii (pair f)
  noSep : ∀ f ∈ w.reply symbol b trades, SEP ∉ pair f

instance (symbols : List String) (e : System) :
    (a : Action) → Decidable (SilentAbout symbols e a)
  | .engine => decidable_of_iff (∀ task ∈ e.tasks.head?, ∀ n ∈ task.notices e.gateway.active,
      ∀ symbol ∈ symbols, Subscriber.decode (fillFixed 8 n.symbol) ≠ some symbol) (by
        rw [SilentAbout]
        cases e.tasks <;> simp)
  | .message _ _ | .logon _ | .handle | .persist | .registerSymbol _ => isTrue trivial

instance (w : Wire) (symbol : String) (b : OrderBook) (trades : List HistoricalTrade) :
    Decidable (Legible w symbol b trades) :=
  have : ∀ price qty, Decidable (w.fmt.ReadsBack w.py price qty) := fun _ _ =>
    inferInstanceAs (Decidable (_ ∧ _))
  decidable_of_iff ((∀ o ∈ b.getOrders, w.fmt.ReadsBack w.py o.price o.leavesQty) ∧
      (∀ t ∈ trades, w.fmt.ReadsBack w.py t.price t.qty) ∧
      (∀ f ∈ w.reply symbol b trades, IsAscii (pair f)) ∧
      ∀ f ∈ w.reply symbol b trades, SEP ∉ pair f)
    ⟨fun ⟨ho, ht, ha, hn⟩ => ⟨ho, ht, ha, hn⟩, fun ⟨ho, ht, ha, hn⟩ => ⟨ho, ht, ha, hn⟩⟩

/-- The steps of a run in which the server misses nothing: the feed keeps up with the book,
nothing is sent about the symbols as long as the server is midway, and the server can read the
answers. -/
def Undisturbed (w : Wire) (symbols : List String) (s : Startup) : StartupAction → Prop
  | .exchange a => s.exchange.Fed a ∧ (s.Midway → SilentAbout symbols s.exchange a)
  | .snapshot trades => ∀ kv ∈ s.exchange.engine.books.entries, kv.1 ∈ symbols →
      Legible w kv.1 kv.2 (trades kv.1)
  | _ => True

instance (w : Wire) (symbols : List String) (s : Startup) (a : StartupAction) :
    Decidable (s.Undisturbed w symbols a) := by
  unfold Undisturbed
  split <;> infer_instance

/-- The server shows the aggregated book of every symbol. -/
def ShowsBook (symbols : List String) (e : MatchingEngine) (sub : Subscriber) : Prop :=
  ∀ symbol ∈ symbols, ∀ price qty,
    ((sub.bookOf symbol).bids.lookup price = some qty ↔
      ∃ b, e.books.lookup symbol = some b ∧ ⟨price, qty⟩ ∈ b.getBids) ∧
    ((sub.bookOf symbol).asks.lookup price = some qty ↔
      ∃ b, e.books.lookup symbol = some b ∧ ⟨price, qty⟩ ∈ b.getAsks)

/-- The server has the total of each level of every symbol. -/
def ShowsTotals (symbols : List String) (e : MatchingEngine) (sub : Subscriber) : Prop :=
  ∀ symbol ∈ symbols, ∀ price qty,
    ((sub.bookOf symbol).bids.lookup price = some qty ↔ ∃ b, e.books.lookup symbol = some b ∧
      0 < qty ∧ OrderBook.levelTotal (b.bids.findD price []) = qty) ∧
    ((sub.bookOf symbol).asks.lookup price = some qty ↔ ∃ b, e.books.lookup symbol = some b ∧
      0 < qty ∧ OrderBook.levelTotal (b.asks.findD price []) = qty)

/-- The total of every level of these symbols is an `int`. -/
def TotalsFit (symbols : List String) (e : MatchingEngine) : Prop :=
  ∀ symbol ∈ symbols, ∀ b ∈ e.books.lookup symbol,
    OrderBook.LevelTotalsFit b.bids ∧ OrderBook.LevelTotalsFit b.asks

instance (symbols : List String) (e : MatchingEngine) : Decidable (TotalsFit symbols e) :=
  List.decidableBAll _ _

/-- The engine returns the levels that the server has when their totals are `int`s. -/
lemma ShowsTotals.showsBook_iff {symbols : List String} {e : MatchingEngine} {sub : Subscriber}
    (h : ShowsTotals symbols e sub)
    (hbooks : ∀ symbol b, e.books.lookup symbol = some b →
      b.Wf ∧ OrderBook.OpenSide b.bids ∧ OrderBook.OpenSide b.asks) :
    ShowsBook symbols e sub ↔ TotalsFit symbols e := by
  constructor
  · intro hshows symbol hsymbol b hb
    obtain ⟨hwf, hbids, hasks⟩ := hbooks symbol b hb
    have hone : ∀ P : OrderBook → Prop, (∃ b', e.books.lookup symbol = some b' ∧ P b') ↔ P b := by
      intro P
      rw [hb]
      simp
    refine ⟨(hbids.levelsExact_iff hwf.bids_leveled).mp fun price qty => ?_,
      (hasks.levelsExact_iff hwf.asks_leveled).mp fun price qty => ?_⟩
    · have hiff := (hshows symbol hsymbol price qty).1.symm.trans (h symbol hsymbol price qty).1
      rwa [hone, hone] at hiff
    · have hiff := (hshows symbol hsymbol price qty).2.symm.trans (h symbol hsymbol price qty).2
      rwa [hone, hone] at hiff
  · intro hfits symbol hsymbol price qty
    refine ⟨(h symbol hsymbol price qty).1.trans ?_, (h symbol hsymbol price qty).2.trans ?_⟩
    · refine exists_congr fun b => and_congr_right fun hb => ?_
      obtain ⟨hwf, hbids, -⟩ := hbooks symbol b hb
      exact ((hbids.levelsExact_iff hwf.bids_leveled).mpr (hfits symbol hsymbol b hb).1 price
        qty).symm
    · refine exists_congr fun b => and_congr_right fun hb => ?_
      obtain ⟨hwf, -, hasks⟩ := hbooks symbol b hb
      exact ((hasks.levelsExact_iff hwf.asks_leveled).mpr (hfits symbol hsymbol b hb).2 price
        qty).symm

/-! ## What an answer teaches -/

/-- The server has learnt from `s` to `s'` what `t` knows of a symbol. -/
structure Learns (t : Subscriber) (symbol : String) (s s' : Subscriber) : Prop where
  orders : ∀ id st, t.orderState.lookup id = some st → st.symbol = symbol →
    s'.orderState.lookup id = some st
  others : ∀ id, (∀ st, t.orderState.lookup id = some st → st.symbol ≠ symbol) →
    s'.orderState.lookup id = s.orderState.lookup id
  levels : ∀ side price, side = '0' ∨ side = '1' →
    (s'.levels symbol side).lookup price = (t.levels symbol side).lookup price
  otherLevels : ∀ symbol' side, symbol' ≠ symbol → s'.levels symbol' side = s.levels symbol' side
  symbols : ∀ symbol', symbol' ∈ s.orderBook → symbol' ∈ s'.orderBook

/-- A message teaches what `t` knows of a symbol. -/
def Teaches (w : Wire) (body : List (Text × Text)) (symbol : String) (t : Subscriber) : Prop :=
  ∀ m : MarketState, symbol ∈ m.subscriber.orderBook → ∃ p,
    parseFields w.py (rawMessage body) = some p ∧
      Learns t symbol m.subscriber (processMdSnapshot w.strptime m p).subscriber

section Learning

variable {D E : String → Prop} {s s' t u : Subscriber} {symbol : String} {w : Wire}
  {body : List (Text × Text)}

lemma Learns.of_same (h : Learns t symbol s s') (hsame : Subscriber.Same E t u) (hE : E symbol) :
    Learns u symbol s s' := by
  have horders : ∀ id st, st.symbol = symbol →
      (t.orderState.lookup id = some st ↔ u.orderState.lookup id = some st) :=
    fun id st hst => hsame.orders id st (hst ▸ hE)
  refine ⟨fun id st hst hsym => h.orders id st ((horders id st hsym).mpr hst) hsym,
    fun id hid => h.others id fun st hst hsym => hid st ((horders id st hsym).mp hst) hsym,
    fun side price hside => ?_, h.otherLevels, h.symbols⟩
  rw [h.levels side price hside, hsame.levels symbol side price hE hside]

lemma Teaches.of_same (h : Teaches w body symbol t) (hsame : Subscriber.Same E t u)
    (hE : E symbol) : Teaches w body symbol u := by
  intro m hm
  obtain ⟨p, hparse, hlearns⟩ := h m hm
  exact ⟨p, hparse, hlearns.of_same hsame hE⟩

/-- The server then has the part of the book of one more symbol. -/
lemma holds_of_learns (h : Subscriber.Holds D s t) (hlearns : Learns t symbol s s') :
    Subscriber.Holds (fun sym => D sym ∨ sym = symbol) s' t := by
  refine ⟨fun id st hst => ?_, fun id st hst hsym => ?_, fun sym side price hsym hside => ?_⟩
  · by_cases hid : ∃ st', t.orderState.lookup id = some st' ∧ st'.symbol = symbol
    · obtain ⟨st', hst', hsym⟩ := hid
      rw [hlearns.orders id st' hst' hsym] at hst
      rw [← Option.some.inj hst]
      exact hst'
    · rw [hlearns.others id fun st' hst' hsym => hid ⟨st', hst', hsym⟩] at hst
      exact h.known id st hst
  · by_cases heq : st.symbol = symbol
    · exact hlearns.orders id st hst heq
    · rw [hlearns.others id fun st' hst' => Option.some.inj (hst.symm.trans hst') ▸ heq]
      exact h.all id st hst (hsym.resolve_right heq)
  · by_cases heq : sym = symbol
    · rw [heq]
      exact hlearns.levels side price hside
    · rw [hlearns.otherLevels sym side heq]
      exact h.levels sym side price (hsym.resolve_right heq) hside

/-- The orders that have been learnt are of the symbol. -/
lemma symbol_of_learns (hlearns : Learns t symbol s s') {id : String} {st : OrderState}
    (hst : s'.orderState.lookup id = some st) :
    st.symbol = symbol ∨ s.orderState.lookup id = some st := by
  by_cases hid : ∃ st', t.orderState.lookup id = some st' ∧ st'.symbol = symbol
  · obtain ⟨st', hst', hsym⟩ := hid
    rw [hlearns.orders id st' hst' hsym] at hst
    rw [← Option.some.inj hst]
    exact Or.inl hsym
  · rw [hlearns.others id fun st' hst' hsym => hid ⟨st', hst', hsym⟩] at hst
    exact Or.inr hst

end Learning

section Feed

variable {w : Wire} {symbols : List String} {cfg : Config} {as : List Action} {e : System}
  {symbol : String} {b : OrderBook} {trades : List HistoricalTrade}

/-- **An answer teaches the book** as a subscriber has it that has heard everything. -/
lemma teaches_reply (h : System.RunTo cfg System.Fed as e) (ht : e.tasks = [])
    (hb : e.engine.books.lookup symbol = some b) (hlegible : Legible w symbol b trades) :
    Teaches w (w.reply symbol b trades) symbol (subscriber symbols e.gateway.publisher) := by
  intro m hm
  have hs := System.sound_of_run h
  have hsync := System.synced_of_run
    (fun _ _ h => System.forwardsPositive_of_replacesPositive h.followed.positive) h
  have hfeed := System.feedIsExact_of_fed h ht symbols
  have hpos : ∀ o ∈ b.getOrders, 0 < o.leavesQty := by
    intro o ho
    obtain ⟨n, hn, rfl⟩ := List.mem_map.mp ho
    exact (hsync.positive symbol b hb n hn).1
  have hids : ∀ o ∈ b.getOrders, o.exchangeId ≠ "" := by
    intro o ho
    obtain ⟨n, hn, rfl⟩ := List.mem_map.mp ho
    obtain ⟨⟨k, -, hid⟩, -⟩ := (hs.books.orders symbol b hb n hn).2
    rw [hid]
    exact exchangeId_ne_empty k
  obtain ⟨p, hparse, hseeded, book, hbook⟩ := exists_processed w.strptime
    (hs.books.wf symbol b hb) (hs.books.keyed symbol b hb) hpos hids (w.header symbol)
    hlegible.orders hlegible.history (m := ⟨w.reply symbol b trades, hlegible.ascii, hlegible.noSep⟩)
    rfl m hm
  refine ⟨p, hparse, ⟨fun id st hst hsym => ?_, fun id hid => ?_, fun side price hside => ?_,
    fun symbol' side hne => ?_, fun symbol' hmem => ?_⟩⟩
  · obtain ⟨sym, b', hb', n, hn, rfl, rfl⟩ := (hfeed.orders id st).mp hst
    -- an order of the symbol rests in its book
    have hsame : sym = symbol := (hs.books.orders sym b' hb' n hn).1.symm.trans hsym
    obtain rfl := hsame
    obtain rfl := Option.some.inj (hb.symm.trans hb')
    rw [hseeded.orders n.order (List.mem_map_of_mem hn), ← hsym]
    rfl
  · refine hseeded.others id fun o ho heq => ?_
    obtain ⟨n, hn, rfl⟩ := List.mem_map.mp ho
    refine hid n.order.shown ((hfeed.orders id _).mpr ⟨symbol, b, hb, n, hn, heq, rfl⟩) ?_
    exact (hs.books.orders symbol b hb n hn).1
  · rcases hside with rfl | rfl
    · refine Option.ext fun qty => ?_
      exact (hseeded.bids price qty).trans (hfeed.bids symbol b hb price qty).symm
    · refine Option.ext fun qty => ?_
      exact (hseeded.asks price qty).trans (hfeed.asks symbol b hb price qty).symm
  · rw [Subscriber.levels, Subscriber.levels, Subscriber.bookOf, hbook,
      AList.lookup_insert_ne hne]
    rfl
  · rw [hbook]
    exact (AList.mem_insert _).mpr (Or.inr hmem)

end Feed

/-! ## The invariant -/

/-- How many packets the server has got, or has missed before it joined the group. -/
def position (s : Startup) : ℕ := s.joined.getD s.exchange.gateway.publisher.sent.length

/-- A subscriber that has heard all packets up to there. -/
def heard (symbols : List String) (s : Startup) : Subscriber :=
  (s.exchange.gateway.publisher.sent.take s.position).foldl Subscriber.receive
    (Subscriber.init symbols)

/-- The server has the book of the symbol: the engine has answered, and no answer for the symbol
is on its way. -/
def Knows (symbols : List String) (s : Startup) (symbol : String) : Prop :=
  symbol ∈ symbols ∧ ∃ replies, s.request = .answered replies ∧ ∀ reply ∈ replies, reply.1 ≠ symbol

/-- The server has the part of the book that the symbols it knows are. -/
structure Tracks (w : Wire) (symbols : List String) (s : Startup) : Prop where
  bound : s.position ≤ s.exchange.gateway.publisher.sent.length
  asked : ∀ symbol ∈ symbols, symbol ∈ s.market.subscriber.orderBook
  holds : Subscriber.Holds (s.Knows symbols) s.market.subscriber (s.heard symbols)
  /-- Before it joins the group it has orders from the answers only. -/
  only : s.joined = none → ∀ id st, s.market.subscriber.orderState.lookup id = some st →
    s.Knows symbols st.symbol
  /-- What it has not got yet is about other symbols, as long as it is midway. -/
  missed : s.Midway → ∀ pkt ∈ s.exchange.gateway.publisher.sent.drop s.position,
    ¬ Subscriber.About (· ∈ symbols) pkt
  replies : ∀ replies, s.request = .answered replies → ∀ reply ∈ replies,
    reply.1 ∈ symbols ∧ Teaches w reply.2 reply.1 (s.heard symbols)
  blank : ¬ s.request.Answered → ∀ symbol ∈ symbols, ∀ side price, side = '0' ∨ side = '1' →
    (s.market.subscriber.levels symbol side).lookup price = none

section Steps

variable {w : Wire} {symbols : List String} {s s' : Startup}

lemma knows_of_unanswered (h : ¬ s.request.Answered) (symbol : String) :
    ¬ s.Knows symbols symbol := by
  rintro ⟨-, replies, hrequest, -⟩
  rw [hrequest] at h
  exact h trivial

lemma mem_orderBook_init {symbol : String} (h : symbol ∈ symbols) :
    symbol ∈ (Subscriber.init symbols).orderBook := by
  simp only [Subscriber.init]
  induction symbols with
  | nil => exact absurd h (by simp)
  | cons sym symbols ih =>
    rw [List.foldr_cons, AList.mem_insert]
    rcases List.mem_cons.mp h with rfl | h
    · exact Or.inl rfl
    · exact Or.inr (ih h)

lemma tracks_start (w : Wire) (symbols : List String) (cfg : Config) :
    (start cfg symbols).Tracks w symbols := by
  have hblank : ∀ symbol side price, side = '0' ∨ side = '1' →
      (((Subscriber.init symbols).levels symbol side).lookup price) = none := by
    intro symbol side price hside
    rw [Subscriber.levels, Subscriber.bookOf_init]
    rcases hside with rfl | rfl <;> rfl
  have hrequest : ¬ (start cfg symbols).request.Answered := fun h => h
  refine ⟨le_refl 0, fun symbol h => mem_orderBook_init h, ⟨fun id st hst => ?_,
    fun id st _ h => absurd h (knows_of_unanswered hrequest _),
    fun symbol _ _ h => absurd h (knows_of_unanswered hrequest symbol)⟩,
    fun _ id st hst => ?_, fun _ pkt h => absurd h List.not_mem_nil,
    fun replies h => absurd h (by simp [start]), fun _ symbol _ => hblank symbol⟩
  · exact absurd hst (by simp [start, Subscriber.init])
  · exact absurd hst (by simp [start, Subscriber.init])

/-- Packets about other symbols change nothing of the symbols. -/
lemma same_foldl {D : String → Prop} {t : Subscriber} {pkts : List MdPacket}
    (h : t.Coherent pkts) (habout : ∀ pkt ∈ pkts, ¬ Subscriber.About D pkt) :
    Subscriber.Same D t (pkts.foldl Subscriber.receive t) := by
  induction pkts generalizing t with
  | nil => exact Subscriber.Same.refl
  | cons pkt pkts ih =>
    have hfirst := Subscriber.Same.receive h.1 (habout pkt List.mem_cons_self)
    exact hfirst.trans (ih h.2 fun p hp => habout p (List.mem_cons_of_mem _ hp))

/-- The server knows as much when the exchange has sent more packets, unless it misses one of
them. -/
lemma Tracks.exchange (h : s.Tracks w symbols) {e : System} {pkts : List MdPacket}
    (hsent : e.gateway.publisher.sent = s.exchange.gateway.publisher.sent ++ pkts)
    (hcoherent : (Subscriber.init symbols).Coherent e.gateway.publisher.sent)
    (hsilent : s.Midway → ∀ pkt ∈ pkts, ¬ Subscriber.About (· ∈ symbols) pkt) :
    ({ s with exchange := e } : Startup).Tracks w symbols := by
  obtain hjoined | ⟨n, hjoined⟩ := Option.eq_none_or_eq_some s.joined
  · -- the server misses the packets
    have hheard : s.heard symbols = s.exchange.gateway.publisher.sent.foldl Subscriber.receive
        (Subscriber.init symbols) := by
      simp only [heard, position, hjoined, Option.getD_none, List.take_length]
    have hheard' : ({ s with exchange := e } : Startup).heard symbols =
        pkts.foldl Subscriber.receive (s.heard symbols) := by
      rw [hheard]
      simp only [heard, position, hjoined, Option.getD_none, List.take_length, hsent,
        List.foldl_append]
    rw [hsent, Subscriber.coherent_append, ← hheard] at hcoherent
    have hsame : s.request.Answered →
        Subscriber.Same (· ∈ symbols) (s.heard symbols)
          (({ s with exchange := e } : Startup).heard symbols) := by
      intro hanswered
      rw [hheard']
      exact same_foldl hcoherent.2 (hsilent ⟨Or.inl hanswered, by simp [hjoined]⟩)
    refine ⟨by simp [position, hjoined], h.asked, ?_, h.only, fun _ pkt hpkt => ?_,
      fun replies hrequest reply hreply => ?_, h.blank⟩
    · by_cases hanswered : s.request.Answered
      · exact h.holds.of_same (hsame hanswered) (fun _ hknows => hknows.1) fun id st hst =>
          (h.only hjoined id st hst).1
      · -- it knows nothing yet
        have hnothing : ∀ symbol, ¬ s.Knows symbols symbol := knows_of_unanswered hanswered
        exact ⟨fun id st hst => absurd (h.only hjoined id st hst) (hnothing _),
          fun id st _ hknows => absurd hknows (hnothing _),
          fun symbol _ _ hknows => absurd hknows (hnothing symbol)⟩
    · simp [position, hjoined] at hpkt
    · have hanswered : s.request.Answered := by
        have hrequest' : s.request = .answered replies := hrequest
        rw [hrequest']
        trivial
      obtain ⟨hmem, hteaches⟩ := h.replies replies hrequest reply hreply
      exact ⟨hmem, hteaches.of_same (hsame hanswered) hmem⟩
  · -- the server gets the packets later
    have hn : n ≤ s.exchange.gateway.publisher.sent.length := by
      have hbound := h.bound
      rwa [position, hjoined] at hbound
    have hheard : ({ s with exchange := e } : Startup).heard symbols = s.heard symbols := by
      simp only [heard, position, hjoined, Option.getD_some, hsent]
      rw [List.take_append_of_le_length hn]
    have hdrop : e.gateway.publisher.sent.drop s.position =
        s.exchange.gateway.publisher.sent.drop s.position ++ pkts := by
      rw [hsent, position, hjoined]
      exact List.drop_append_of_le_length hn
    have hposition : ({ s with exchange := e } : Startup).position = s.position := by
      simp only [position, hjoined, Option.getD_some]
    refine ⟨?_, h.asked, ?_, h.only, fun hmid pkt hpkt => ?_, fun replies hrequest => ?_, h.blank⟩
    · rw [hposition, hsent, List.length_append]
      exact h.bound.trans (Nat.le_add_right _ _)
    · rw [hheard]
      exact h.holds
    · rw [hposition, hdrop] at hpkt
      exact (List.mem_append.mp hpkt).elim (h.missed hmid pkt) (hsilent hmid pkt)
    · rw [hheard]
      exact h.replies replies hrequest

/-- The request moves, but is not answered yet. -/
lemma Tracks.unanswered (h : s.Tracks w symbols) (hs : ¬ s.request.Answered)
    {r : SnapshotRequest} (hr : ¬ r.Answered) :
    ({ s with request := r } : Startup).Tracks w symbols := by
  have hnothing : ∀ symbol, ¬ s.Knows symbols symbol := knows_of_unanswered hs
  have hnothing' : ∀ symbol, ¬ ({ s with request := r } : Startup).Knows symbols symbol :=
    knows_of_unanswered hr
  have hmid : ({ s with request := r } : Startup).Midway → s.Midway := by
    rintro ⟨hbegun, -⟩
    refine ⟨Or.inr (hbegun.resolve_left hr), fun hsettled => hs ?_⟩
    rw [hsettled.1]
    trivial
  refine ⟨h.bound, h.asked, ⟨h.holds.known, fun id st _ hknows => absurd hknows (hnothing' _),
    fun symbol _ _ hknows => absurd hknows (hnothing' symbol)⟩,
    fun hjoined id st hst => absurd (h.only hjoined id st hst) (hnothing _),
    fun hmidway => h.missed (hmid hmidway), fun replies hrequest => absurd ?_ hr,
    fun _ => h.blank hs⟩
  have hrequest' : r = .answered replies := hrequest
  rw [hrequest']
  trivial

/-- The server joins the group. -/
lemma Tracks.join (h : s.Tracks w symbols) (hjoined : s.joined = none) :
    ({ s with joined := some s.exchange.gateway.publisher.sent.length } : Startup).Tracks w
      symbols := by
  have hposition : ({ s with joined := some s.exchange.gateway.publisher.sent.length } :
      Startup).position = s.position := by
    rw [position, position, hjoined]
    rfl
  have hheard : ({ s with joined := some s.exchange.gateway.publisher.sent.length } :
      Startup).heard symbols = s.heard symbols := by
    rw [heard, hposition]
    rfl
  refine ⟨le_refl _, h.asked, ?_, fun hnone => absurd hnone (by simp), fun _ pkt hpkt => ?_,
    fun replies hrequest => ?_, h.blank⟩
  · rw [hheard]
    exact h.holds
  · simp [position] at hpkt
  · rw [hheard]
    exact h.replies replies hrequest

lemma subscriber_receive (m : MarketState) (now : ℚ) (pkt : MdPacket) :
    (m.receive now pkt).subscriber = m.subscriber.receive pkt := by
  simp only [MarketState.receive, Subscriber.receive]
  cases Subscriber.decode pkt.symbol with
  | none => rfl
  | some symbol => cases Subscriber.decode pkt.exchangeId <;> rfl

/-- A packet does not remove a symbol. -/
lemma mem_orderBook_receive {sub : Subscriber} {symbol : String} (h : symbol ∈ sub.orderBook)
    (pkt : MdPacket) : symbol ∈ (sub.receive pkt).orderBook := by
  rw [Subscriber.receive]
  split
  · rename_i symbol' id hsymbol hid
    have henter : symbol ∈ (sub.enterSymbol symbol').orderBook := by
      rw [Subscriber.enterSymbol]
      split_ifs
      · exact h
      · exact (AList.mem_insert _).mpr (Or.inr h)
    rw [Subscriber.applyMd_eq]
    split
    · exact henter
    · exact (AList.mem_insert _).mpr (Or.inr henter)
  · exact h

/-- A packet about other symbols leaves the levels of a symbol alone. -/
lemma lookup_levels_receive {D : String → Prop} {sub : Subscriber} {pkt : MdPacket}
    (habout : ¬ Subscriber.About D pkt) {symbol : String} (hsymbol : D symbol) {side : Char}
    (hside : side = '0' ∨ side = '1') (price : Price) :
    ((sub.receive pkt).levels symbol side).lookup price = (sub.levels symbol side).lookup price := by
  rw [Subscriber.receive]
  split
  · rename_i symbol' id hdecode hid
    exact sub.lookup_levels_of_ne id hside
      (fun heq : symbol = symbol' => habout ⟨symbol', hdecode, heq ▸ hsymbol⟩) price
  · rfl

/-- The server gets a packet. -/
lemma Tracks.deliver (h : s.Tracks w symbols) {n : ℕ} (hjoined : s.joined = some n)
    {pkt : MdPacket} (hpkt : s.exchange.gateway.publisher.sent[n]? = some pkt)
    (hcoherent : (Subscriber.init symbols).Coherent s.exchange.gateway.publisher.sent) (now : ℚ) :
    ({ s with joined := some (n + 1), market := s.market.receive now pkt } : Startup).Tracks w
      symbols := by
  have hposition : s.position = n := by
    rw [position, hjoined]
    rfl
  have hheard : ({ s with joined := some (n + 1), market := s.market.receive now pkt } :
      Startup).heard symbols = (s.heard symbols).receive pkt := by
    simp only [heard, hposition]
    rw [position, Option.getD_some, List.take_add_one, hpkt, Option.toList_some,
      List.foldl_append]
    rfl
  have hdrop : s.exchange.gateway.publisher.sent.drop s.position =
      pkt :: s.exchange.gateway.publisher.sent.drop (n + 1) := by
    obtain ⟨hlt, rfl⟩ := List.getElem?_eq_some_iff.mp hpkt
    rw [hposition]
    exact List.drop_eq_getElem_cons hlt
  have hnames : (s.heard symbols).Names pkt := by
    rw [heard, hposition]
    exact hcoherent.names hpkt
  -- as long as the server is midway, the packet is about another symbol
  have habout : s.Midway → ¬ Subscriber.About (· ∈ symbols) pkt := fun hmid =>
    h.missed hmid pkt (hdrop ▸ List.mem_cons_self)
  have hmidway : ({ s with joined := some (n + 1), market := s.market.receive now pkt } :
      Startup).Midway → s.Midway := by
    rintro ⟨-, hnot⟩
    exact ⟨Or.inr (by simp [hjoined]), fun hsettled => hnot ⟨hsettled.1, rfl⟩⟩
  refine ⟨?_, fun symbol hsymbol => ?_, ?_, fun hnone => absurd hnone (by simp),
    fun hmid pkt' hpkt' => ?_, fun replies hrequest reply hreply => ?_,
    fun hunanswered symbol hsymbol side price hside => ?_⟩
  · exact (List.getElem?_eq_some_iff.mp hpkt).1
  · rw [subscriber_receive]
    exact mem_orderBook_receive (h.asked symbol hsymbol) pkt
  · rw [subscriber_receive, hheard]
    exact h.holds.receive hnames
  · refine h.missed (hmidway hmid) pkt' ?_
    rw [hdrop]
    exact List.mem_cons_of_mem _ hpkt'
  · have hmid : s.Midway := by
      refine ⟨Or.inr (by simp [hjoined]), fun hsettled => ?_⟩
      have hrequest' : s.request = .answered replies := hrequest
      rw [hsettled.1] at hrequest'
      obtain rfl := SnapshotRequest.answered.inj hrequest'
      exact absurd hreply List.not_mem_nil
    obtain ⟨hmem, hteaches⟩ := h.replies replies hrequest reply hreply
    rw [hheard]
    exact ⟨hmem, hteaches.of_same (Subscriber.Same.receive hnames (habout hmid)) hmem⟩
  · have hmid : s.Midway := by
      refine ⟨Or.inr (by simp [hjoined]), fun hsettled => hunanswered ?_⟩
      rw [hsettled.1]
      trivial
    rw [subscriber_receive, ← h.blank hunanswered symbol hsymbol side price hside]
    exact lookup_levels_receive (habout hmid) hsymbol hside price

/-- The server gets an answer. -/
lemma Tracks.receive (h : s.Tracks w symbols) {rs : List (String × List (Text × Text))}
    (hrequest : s.request = .answered rs) {symbol : String} {body : List (Text × Text)}
    (hbody : rs.lookup symbol = some body) {p : Parsed Price}
    (hp : parseFields w.py (rawMessage body) = some p) :
    ({ s with
      request := .answered (rs.filter fun reply => reply.1 ≠ symbol)
      market := processMdSnapshot w.strptime s.market p } : Startup).Tracks w symbols := by
  have hmem : (symbol, body) ∈ rs := by
    obtain ⟨l, l', rfl, -⟩ := List.lookup_eq_some_iff.mp hbody
    simp
  obtain ⟨hsymbol, hteaches⟩ := h.replies rs hrequest _ hmem
  obtain ⟨p', hp', hlearns⟩ := hteaches s.market (h.asked symbol hsymbol)
  obtain rfl : p = p' := Option.some.inj (hp.symm.trans hp')
  have hmid : s.Midway := by
    refine ⟨Or.inl (by rw [hrequest]; trivial), fun hsettled => ?_⟩
    rw [hrequest] at hsettled
    obtain rfl := SnapshotRequest.answered.inj hsettled.1
    exact absurd hmem List.not_mem_nil
  have hknows : ({ s with
      request := .answered (rs.filter fun reply => reply.1 ≠ symbol)
      market := processMdSnapshot w.strptime s.market p } : Startup).Knows symbols =
        fun sym => s.Knows symbols sym ∨ sym = symbol := by
    funext sym
    refine propext ⟨?_, ?_⟩
    · rintro ⟨hsym, replies, hanswered, hnone⟩
      obtain rfl := SnapshotRequest.answered.inj hanswered
      by_cases heq : sym = symbol
      · exact Or.inr heq
      · refine Or.inl ⟨hsym, rs, hrequest, fun reply hreply hfirst => ?_⟩
        have hother : reply.1 ≠ symbol := hfirst ▸ heq
        exact hnone reply (List.mem_filter.mpr ⟨hreply, by simpa using hother⟩) hfirst
    · rintro (⟨hsym, replies, hanswered, hnone⟩ | rfl)
      · obtain rfl := SnapshotRequest.answered.inj (hrequest.symm.trans hanswered)
        exact ⟨hsym, _, rfl, fun reply hreply => hnone reply (List.mem_filter.mp hreply).1⟩
      · exact ⟨hsymbol, _, rfl, fun reply hreply => by simpa using (List.mem_filter.mp hreply).2⟩
  refine ⟨h.bound, fun sym hsym => hlearns.symbols sym (h.asked sym hsym), ?_,
    fun hjoined id st hst => ?_, fun _ => h.missed hmid, fun replies hanswered reply hreply => ?_,
    fun hunanswered => absurd trivial hunanswered⟩
  · rw [hknows]
    exact holds_of_learns h.holds hlearns
  · rw [hknows]
    exact (symbol_of_learns hlearns hst).symm.imp_left (h.only hjoined id st)
  · obtain rfl := SnapshotRequest.answered.inj hanswered
    exact h.replies rs hrequest reply (List.mem_filter.mp hreply).1

/-- The engine thread takes the snapshots. -/
lemma Tracks.snapshot (h : s.Tracks w symbols) {cfg : Config} {as : List Action}
    (hrun : System.RunTo cfg System.Fed as s.exchange) (ht : s.exchange.tasks = [])
    (hunanswered : ¬ s.request.Answered) {trades : String → List HistoricalTrade}
    (hlegible : ∀ kv ∈ s.exchange.engine.books.entries, kv.1 ∈ symbols →
      Legible w kv.1 kv.2 (trades kv.1)) :
    ({ s with request := .answered (answers w symbols s.exchange.engine trades) } :
      Startup).Tracks w symbols := by
  have hfeed := System.feedIsExact_of_fed hrun ht symbols
  have hcoherent := System.coherent_feed hrun symbols
  -- what the server has not got yet is about other symbols
  have hmissed : ∀ pkt ∈ s.exchange.gateway.publisher.sent.drop s.position,
      ¬ Subscriber.About (· ∈ symbols) pkt := by
    obtain hjoined | ⟨n, hjoined⟩ := Option.eq_none_or_eq_some s.joined
    · simp [position, hjoined]
    · refine h.missed ⟨Or.inr (by simp [hjoined]), fun hsettled => hunanswered ?_⟩
      rw [hsettled.1]
      trivial
  have hsame : Subscriber.Same (· ∈ symbols) (subscriber symbols s.exchange.gateway.publisher)
      (s.heard symbols) := by
    rw [← List.take_append_drop s.position s.exchange.gateway.publisher.sent,
      Subscriber.coherent_append] at hcoherent
    have hrest := same_foldl hcoherent.2 hmissed
    rw [← List.foldl_append, List.take_append_drop] at hrest
    exact hrest.symm
  have hnothing : ∀ symbol, ¬ s.Knows symbols symbol := knows_of_unanswered hunanswered
  have hbook : ∀ symbol, ({ s with
      request := .answered (answers w symbols s.exchange.engine trades) } :
        Startup).Knows symbols symbol → symbol ∈ symbols ∧
          s.exchange.engine.books.lookup symbol = none := by
    rintro symbol ⟨hsymbol, rs, hanswered, hnone⟩
    obtain rfl := SnapshotRequest.answered.inj hanswered
    refine ⟨hsymbol, ?_⟩
    by_contra hsome
    obtain ⟨b, hb⟩ := Option.ne_none_iff_exists'.mp hsome
    refine hnone (symbol, w.reply symbol b (trades symbol)) ?_ rfl
    refine List.mem_map.mpr ⟨⟨symbol, b⟩, List.mem_filter.mpr ⟨?_, by simpa using hsymbol⟩, rfl⟩
    exact AList.mem_lookup_iff.mp hb
  refine ⟨h.bound, h.asked, ⟨h.holds.known, fun id st hst hknows => ?_,
    fun symbol side price hknows hside => ?_⟩,
    fun hjoined id st hst => absurd (h.only hjoined id st hst) (hnothing _),
    fun _ => hmissed, fun rs hanswered reply hreply => ?_,
    fun hnot => absurd trivial hnot⟩
  · -- no order rests for a symbol without a book
    obtain ⟨hsymbol, hnone⟩ := hbook _ hknows
    obtain ⟨sym, b, hb, n, hn, -, rfl⟩ :=
      (hfeed.orders id st).mp ((hsame.orders id st hsymbol).mpr hst)
    have hsym := ((System.sound_of_run hrun).books.orders sym b hb n hn).1
    rw [show n.order.shown.symbol = sym from hsym, hb] at hnone
    exact absurd hnone (by simp)
  · obtain ⟨hsymbol, hnone⟩ := hbook _ hknows
    have hlevels : ((subscriber symbols s.exchange.gateway.publisher).levels symbol side).lookup
        price = none := by
      rcases hside with rfl | rfl
      · exact (hfeed.others symbol hnone price).1
      · exact (hfeed.others symbol hnone price).2
    rw [h.blank hunanswered symbol hsymbol side price hside]
    exact hlevels.symm.trans (hsame.levels symbol side price hsymbol hside)
  · obtain rfl := SnapshotRequest.answered.inj hanswered
    obtain ⟨⟨symbol, b⟩, hmem, rfl⟩ := List.mem_map.mp hreply
    obtain ⟨hentry, hsymbol⟩ := List.mem_filter.mp hmem
    have hsymbol : symbol ∈ symbols := by simpa using hsymbol
    have hteaches : Teaches w _ symbol (subscriber symbols s.exchange.gateway.publisher) :=
      teaches_reply hrun ht (AList.mem_lookup_iff.mpr hentry) (hlegible _ hentry hsymbol)
    exact ⟨hsymbol, hteaches.of_same hsame hsymbol⟩

/-- What a step of the exchange sends. -/
lemma exists_sent (symbols : List String) {e e' : System} (hs : e.Sound) {a : Action}
    (hstep : e.step a = some e') :
    ∃ pkts, e'.gateway.publisher.sent = e.gateway.publisher.sent ++ pkts ∧
      (SilentAbout symbols e a → ∀ pkt ∈ pkts, ¬ Subscriber.About (· ∈ symbols) pkt) := by
  have hsame : e'.gateway.publisher = e.gateway.publisher →
      ∃ pkts, e'.gateway.publisher.sent = e.gateway.publisher.sent ++ pkts ∧
        (SilentAbout symbols e a → ∀ pkt ∈ pkts, ¬ Subscriber.About (· ∈ symbols) pkt) :=
    fun heq => ⟨[], by rw [heq, List.append_nil], fun _ pkt hpkt => absurd hpkt List.not_mem_nil⟩
  cases a with
  | message msg session =>
    obtain ⟨-, rfl⟩ := System.step_message hstep
    refine hsame ?_
    rcases System.onMessage_cases e session msg with ⟨seq, sent, heq, -⟩ | ⟨m, o, rfl, ho, heq⟩ |
        ⟨m, req, rfl, hreq, heq⟩ | ⟨m, req, rfl, hreq, heq⟩ <;>
      rw [heq] <;> rfl
  | logon session =>
    obtain ⟨-, rfl⟩ := System.step_logon hstep
    exact hsame rfl
  | handle =>
    rcases System.handle_cases hstep with ⟨o, session, hh, rfl⟩ | ⟨o, session, hh, rfl⟩ |
      ⟨item, hitem, rfl⟩ <;> exact hsame rfl
  | engine =>
    rcases System.engineStep_cases hstep with ⟨t, ts, ht, rfl⟩ |
        ⟨ht, item, queue, b, hq, hb, rfl⟩
    · have hcov := hs.maps.covered
      rw [ht] at hcov
      obtain ⟨pkts, hsent, hpkts⟩ :=
        Notice.exists_publishes (t.notices e.gateway.active) e.gateway.publisher
      refine ⟨pkts, ?_, fun hsilent pkt hpkt => ?_⟩
      · rw [← hsent]
        exact congrArg MarketDataPublisher.sent (FixGateway.runTask_runsTo hcov).publisher
      · rintro ⟨symbol, hdecode, hsymbol⟩
        obtain ⟨n, hn, htext⟩ := hpkts pkt hpkt
        simp only [SilentAbout, ht] at hsilent
        exact hsilent n hn symbol hsymbol (htext ▸ hdecode)
    · exact hsame rfl
  | persist =>
    obtain ⟨p, p', hp, happly, rfl⟩ := System.step_persist hstep
    exact hsame rfl
  | registerSymbol symbol =>
    obtain ⟨e', he, rfl⟩ := System.step_registerSymbol hstep
    exact hsame rfl

/-- What a step of the exchange does to the state. -/
lemma exchangeStep_cases {a : Action} (h : s.exchangeStep a = some s') :
    ∃ e, s.exchange.step a = some e ∧ (s' = { s with exchange := e } ∨
      ¬ s.request.Answered ∧ ∃ ahead, s' = { s with exchange := e, request := .queued ahead }) := by
  unfold exchangeStep at h
  split at h
  · rename_i ahead hrequest
    have hunanswered : ¬ s.request.Answered := by
      rw [hrequest]
      exact fun h => h
    split_ifs at h
    · obtain ⟨e, he, rfl⟩ := Option.map_eq_some_iff.mp h
      exact ⟨e, he, Or.inr ⟨hunanswered, _, rfl⟩⟩
    · obtain ⟨e, he, hs'⟩ := Option.bind_eq_some_iff.mp h
      split_ifs at hs'
      obtain rfl := Option.some.inj hs'
      exact ⟨e, he, Or.inl rfl⟩
  · obtain ⟨e, he, rfl⟩ := Option.map_eq_some_iff.mp h
    exact ⟨e, he, Or.inl rfl⟩

lemma step_request (h : s.step w symbols .request = some s') :
    ¬ s.request.Answered ∧ ∃ ahead, s' = { s with request := .queued ahead } := by
  simp only [step] at h
  split at h
  · rename_i hrequest
    split_ifs at h
    refine ⟨?_, _, (Option.some.inj h).symm⟩
    rw [hrequest]
    exact fun h => h
  · exact absurd h (by simp)

lemma step_snapshot {trades : String → List HistoricalTrade}
    (h : s.step w symbols (.snapshot trades) = some s') :
    ¬ s.request.Answered ∧ s.exchange.tasks = [] ∧
      s' = { s with request := .answered (answers w symbols s.exchange.engine trades) } := by
  simp only [step] at h
  split at h
  · rename_i hrequest
    split_ifs at h with ht
    refine ⟨?_, ht, (Option.some.inj h).symm⟩
    rw [hrequest]
    exact fun h => h
  · exact absurd h (by simp)

lemma step_receive {symbol : String} (h : s.step w symbols (.receive symbol) = some s') :
    ∃ rs body p, s.request = .answered rs ∧ rs.lookup symbol = some body ∧
      parseFields w.py (rawMessage body) = some p ∧
      s' = { s with
        request := .answered (rs.filter fun reply => reply.1 ≠ symbol)
        market := processMdSnapshot w.strptime s.market p } := by
  simp only [step] at h
  split at h
  · rename_i rs hrequest
    obtain ⟨body, hbody, h⟩ := Option.bind_eq_some_iff.mp h
    obtain ⟨p, hp, rfl⟩ := Option.map_eq_some_iff.mp h
    exact ⟨rs, body, p, hrequest, hbody, hp, rfl⟩
  · exact absurd h (by simp)

lemma step_join (h : s.step w symbols .join = some s') :
    s.joined = none ∧
      s' = { s with joined := some s.exchange.gateway.publisher.sent.length } := by
  simp only [step] at h
  split at h
  · rename_i hjoined hrequest
    split_ifs at h
    exact ⟨hjoined, (Option.some.inj h).symm⟩
  · rename_i hjoined hrequest
    exact ⟨hjoined, (Option.some.inj h).symm⟩
  · exact absurd h (by simp)

lemma step_deliver {now : ℚ} (h : s.step w symbols (.deliver now) = some s') :
    ∃ n pkt, s.joined = some n ∧ s.exchange.gateway.publisher.sent[n]? = some pkt ∧
      s' = { s with joined := some (n + 1), market := s.market.receive now pkt } := by
  obtain ⟨n, hjoined, h⟩ := Option.bind_eq_some_iff.mp h
  obtain ⟨pkt, hpkt, rfl⟩ := Option.map_eq_some_iff.mp h
  exact ⟨n, pkt, hjoined, hpkt, rfl⟩

/-- The exchange goes through a run of its own. -/
lemma exchange_run {cfg : Config} {as : List StartupAction}
    (h : RunTo w symbols cfg (Undisturbed w symbols) as s) :
    ∃ es, System.RunTo cfg System.Fed es s.exchange := by
  refine h.invariant (I := fun s => ∃ es, System.RunTo cfg System.Fed es s.exchange)
    ⟨[], .refl⟩ fun as t a u _ ht hok hstep => ?_
  cases a with
  | exchange a =>
    obtain ⟨es, hes⟩ := ht
    obtain ⟨e, he, rfl | ⟨-, ahead, rfl⟩⟩ := exchangeStep_cases hstep
    · exact ⟨es ++ [a], hes.snoc hok.1 he⟩
    · exact ⟨es ++ [a], hes.snoc hok.1 he⟩
  | request =>
    obtain ⟨-, ahead, rfl⟩ := step_request hstep
    exact ht
  | snapshot trades =>
    obtain ⟨-, -, rfl⟩ := step_snapshot hstep
    exact ht
  | receive symbol =>
    obtain ⟨rs, body, p, -, -, -, rfl⟩ := step_receive hstep
    exact ht
  | join =>
    obtain ⟨-, rfl⟩ := step_join hstep
    exact ht
  | deliver now =>
    obtain ⟨n, pkt, -, -, rfl⟩ := step_deliver hstep
    exact ht

/-- **Every step keeps the part of the book** that the server knows. -/
theorem Tracks.step (h : s.Tracks w symbols) {cfg : Config} {es : List Action}
    (hrun : System.RunTo cfg System.Fed es s.exchange) {a : StartupAction}
    (hok : s.Undisturbed w symbols a) (hstep : s.step w symbols a = some s') :
    s'.Tracks w symbols := by
  cases a with
  | exchange a =>
    obtain ⟨e, he, hs'⟩ := exchangeStep_cases hstep
    obtain ⟨pkts, hsent, hsilent⟩ := exists_sent symbols (System.sound_of_run hrun) he
    have hmore := h.exchange hsent (System.coherent_feed (hrun.snoc hok.1 he) symbols)
      fun hmid => hsilent (hok.2 hmid)
    obtain rfl | ⟨hunanswered, ahead, rfl⟩ := hs'
    · exact hmore
    · exact hmore.unanswered hunanswered fun h => h
  | request =>
    obtain ⟨hunanswered, ahead, rfl⟩ := step_request hstep
    exact h.unanswered hunanswered fun h => h
  | snapshot trades =>
    obtain ⟨hunanswered, ht, rfl⟩ := step_snapshot hstep
    exact h.snapshot hrun ht hunanswered hok
  | receive symbol =>
    obtain ⟨rs, body, p, hrequest, hbody, hp, rfl⟩ := step_receive hstep
    exact h.receive hrequest hbody hp
  | join =>
    obtain ⟨hjoined, rfl⟩ := step_join hstep
    exact h.join hjoined
  | deliver now =>
    obtain ⟨n, pkt, hjoined, hpkt, rfl⟩ := step_deliver hstep
    exact h.deliver hjoined hpkt (System.coherent_feed hrun symbols) now

theorem tracks_of_run {cfg : Config} {as : List StartupAction}
    (h : RunTo w symbols cfg (Undisturbed w symbols) as s) : s.Tracks w symbols :=
  h.invariant (tracks_start w symbols cfg) fun _ _ _ _ hrun ht hok hstep => by
    obtain ⟨es, hes⟩ := exchange_run hrun
    exact ht.step hes hok hstep

end Steps

/-- The server has the totals of the levels once it has started, the engine thread is between two
items, and all packets are delivered. -/
lemma server_has_totals {w : Wire} {symbols : List String} {cfg : Config}
    {as : List StartupAction} {s : Startup} (h : RunTo w symbols cfg (Undisturbed w symbols) as s)
    (hanswered : s.request = .answered [])
    (hdelivered : s.joined = some s.exchange.gateway.publisher.sent.length)
    (ht : s.exchange.tasks = []) :
    ShowsTotals symbols s.exchange.engine s.market.subscriber := by
  have htracks := tracks_of_run h
  obtain ⟨es, hes⟩ := exchange_run h
  have hfeed := System.feedIsExact_of_fed hes ht symbols
  have hheard : s.heard symbols = subscriber symbols s.exchange.gateway.publisher := by
    rw [heard, position, hdelivered, Option.getD_some, List.take_length]
    rfl
  have hlevels : ∀ symbol ∈ symbols, ∀ side price, side = '0' ∨ side = '1' →
      (s.market.subscriber.levels symbol side).lookup price =
        ((subscriber symbols s.exchange.gateway.publisher).levels symbol side).lookup price := by
    intro symbol hsymbol side price hside
    rw [← hheard]
    exact htracks.holds.levels symbol side price
      ⟨hsymbol, [], hanswered, fun reply hreply => absurd hreply List.not_mem_nil⟩ hside
  intro symbol hsymbol price qty
  have hbids := hlevels symbol hsymbol '0' price (Or.inl rfl)
  have hasks := hlevels symbol hsymbol '1' price (Or.inr rfl)
  simp only [Subscriber.levels, if_pos, if_neg (by decide : ¬ '1' = '0')] at hbids hasks
  rw [hbids, hasks]
  cases hb : s.exchange.engine.books.lookup symbol with
  | none =>
    obtain ⟨hnobids, hnoasks⟩ := hfeed.others symbol hb price
    rw [hnobids, hnoasks]
    simp
  | some b =>
    rw [hfeed.bids symbol b hb, hfeed.asks symbol b hb]
    simp

/-- **When the server has the book of the exchange**, once it has started, the engine thread is
between two items, and all packets are delivered, in every run in which nothing is sent about its
symbols while it is midway: when the total of each level of its symbols is an `int`. -/
theorem server_has_book_iff {w : Wire} {symbols : List String} {cfg : Config}
    {as : List StartupAction} {s : Startup} (h : RunTo w symbols cfg (Undisturbed w symbols) as s)
    (hanswered : s.request = .answered [])
    (hdelivered : s.joined = some s.exchange.gateway.publisher.sent.length)
    (ht : s.exchange.tasks = []) :
    ShowsBook symbols s.exchange.engine s.market.subscriber ↔
      TotalsFit symbols s.exchange.engine := by
  obtain ⟨es, hes⟩ := exchange_run h
  exact (server_has_totals h hanswered hdelivered ht).showsBook_iff fun symbol b hb =>
    System.openSides_of_run
      (fun _ _ h => System.forwardsPositive_of_replacesPositive h.followed.positive) hes hb

/-! ## Two starts -/

/-- The header of the answer for a symbol. -/
def sampleHeader (symbol : String) : MdHeader symbol where
  fields := header "W".toList 1 "EXCHANGE".toList "20260101-09:30:01".toList ++
    [("55".toList, symbol.toList), ("262".toList, "INIT".toList)]
  type := by simp [value, header]
  sym := by simp [value, header]
  noEntry := by simp [header]
  plain := by simp [header]

/-- Whole numbers, and a fixed time. -/
def sampleWire : Wire where
  py := Sample.numbers
  fmt := Sample.format
  strptime _ := some 0
  header := sampleHeader

/-- The steps of the exchange. -/
def exchangeSteps (as : List Action) : List StartupAction := as.map .exchange

/-- An order rests before the server starts, and is filled in part after that. -/
def quietStart : List StartupAction :=
  exchangeSteps (FixExchange.Sample.submit (FixExchange.Sample.limit "a" '1' 5 10)
      FixExchange.Sample.alice ++ FixExchange.Sample.engine 2) ++
    [.request, .snapshot fun _ => [], .receive "X", .join] ++
    exchangeSteps (FixExchange.Sample.submit (FixExchange.Sample.limit "b" '2' 3 10)
      FixExchange.Sample.bob ++ FixExchange.Sample.engine 6) ++
    [.deliver 0, .deliver 0]

/-- A run that is carried out, and a state of the server that is read off. -/
def Done (s : Startup) : Prop :=
  s.request = .answered [] ∧ s.joined = some s.exchange.gateway.publisher.sent.length ∧
    s.exchange.Drained

instance (s : Startup) : Decidable s.Done := inferInstanceAs (Decidable (_ ∧ _ ∧ _))

theorem server_has_book_iff_sample :
    ∃ s, RunTo sampleWire ["X"] FixExchange.Sample.config (Undisturbed sampleWire ["X"])
        quietStart s ∧ s.Done ∧
      ShowsBook ["X"] s.exchange.engine s.market.subscriber ∧
      (s.market.subscriber.bookOf "X").bids.lookup 10 = some 2 := by
  have hreach : ∃ s, RunTo sampleWire ["X"] FixExchange.Sample.config
      (Undisturbed sampleWire ["X"]) quietStart s ∧ s.Done ∧ TotalsFit ["X"] s.exchange.engine ∧
        (s.market.subscriber.bookOf "X").bids.lookup 10 = some 2 :=
    Transition.exists_reaches (by decide +kernel) (by decide +kernel)
  obtain ⟨s, hrun, hdone, hfits, hbid⟩ := hreach
  exact ⟨s, hrun, hdone, (server_has_book_iff hrun hdone.1 hdone.2.1 hdone.2.2.tasks).mpr hfits,
    hbid⟩

/-- An order comes to rest after the snapshots have been taken, and before the server joins the
group. -/
def disturbedStart : List StartupAction :=
  [.request, .snapshot fun _ => []] ++
    exchangeSteps (FixExchange.Sample.submit (FixExchange.Sample.limit "a" '1' 5 10)
      FixExchange.Sample.alice ++ FixExchange.Sample.engine 2) ++
    [.receive "X", .join]

/-- The order that came to rest in between is missing for good: nothing is left to be delivered,
and the server shows an empty book. -/
theorem order_missed :
    ∃ s, RunTo sampleWire ["X"] FixExchange.Sample.config (fun _ _ => True) disturbedStart s ∧
      s.Done ∧ ¬ ShowsBook ["X"] s.exchange.engine s.market.subscriber := by
  have hreach : ∃ s, RunTo sampleWire ["X"] FixExchange.Sample.config (fun _ _ => True)
      disturbedStart s ∧ s.Done ∧
        (s.market.subscriber.bookOf "X").bids.lookup 10 = none ∧
        ((s.exchange.engine.books.lookup "X").any fun b => ⟨10, 5⟩ ∈ b.getBids) = true :=
    Transition.exists_reaches (by decide +kernel) (by decide +kernel)
  obtain ⟨s, hrun, hdone, hnone, hbid⟩ := hreach
  refine ⟨s, hrun, hdone, fun hshows => ?_⟩
  cases hb : s.exchange.engine.books.lookup "X" with
  | none => simp [hb] at hbid
  | some b =>
    rw [hb, Option.any_some, decide_eq_true_eq] at hbid
    have hsome := (hshows "X" (by simp) 10 5).1.mpr ⟨b, hb, hbid⟩
    rw [hnone] at hsome
    exact absurd hsome (by simp)

end Startup

end FixClient

end FixExchange
