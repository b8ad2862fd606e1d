/-
# The feed reconstructs the book

A subscriber that applies every packet of the feed has the resting orders and the totals of
the price levels, in every run in which no replace fills its order completely and the texts of the
orders fit in the packets.  An order that a replace fills stays in the state of the subscriber, and
so does its level (`filled_order_stays`).

The subscriber adds up without a bound.  The engine adds up in `int`s, and the bounds of the gateway
and of the risk engine are on single orders: the levels that it returns are those of the subscriber
as long as each total is an `int` (`feed_is_book_iff`), and all its totals are right as long as the
open quantity of each side is one (`totals_fit_iff_of_run`).
-/
import FixExchange.Engine.IntTotals
import FixExchange.System.Follower
import FixExchange.Ui.Reflects

namespace FixExchange

/-! ## The totals of the levels of a book -/

namespace OrderBook

variable {r : Price → Price → Prop}

/-- The total of a level, as a sum over all orders of its side. -/
lemma levelTotal_findD [IsStrictTotalOrder Price r] {side : BookSide r}
    (h : side.Leveled Node.price) (price : Price) :
    levelTotal (side.findD price [])
      = (side.flat.map fun n =>
          if n.order.price = price then n.order.leavesQty else 0).sum := by
  rw [h.findD_eq_filter, levelTotal, List.sum_map_ite]
  have hzero : ((side.flat.filter fun n => ¬n.order.price = price).map fun _ => (0 : ℤ)).sum = 0 :=
    List.sum_eq_zero (by simp)
  rw [hzero, add_zero]
  rfl

/-- The orders of a book at a level. -/
lemma Wf.openAt_bids {b : OrderBook} (h : b.Wf) {symbol : String}
    (hsym : ∀ n ∈ b.nodes, n.order.symbol = symbol) (price : Price) :
    (b.getOrders.map fun o => o.shown.at symbol '0' price).sum
      = levelTotal (b.bids.findD price []) := by
  have hasks : ((b.asks.flat.map Node.order).map fun o => o.shown.at symbol '0' price).sum = 0 := by
    refine List.sum_eq_zero fun x hx => ?_
    rw [List.map_map] at hx
    obtain ⟨n, hn, rfl⟩ := List.mem_map.mp hx
    refine if_neg fun hat => ?_
    have hside := hat.2.1
    simp [Order.shown, MarketDataPublisher.packetSide, h.asks_side n hn] at hside
  rw [levelTotal_findD h.bids_leveled, getOrders, nodes, List.map_append, List.map_append,
    List.sum_append, hasks, add_zero, List.map_map]
  refine congrArg List.sum (List.map_congr_left fun n hn => ?_)
  have hsame := hsym n (mem_nodes.mpr (Or.inl hn))
  simp [OrderState.at, Order.shown, MarketDataPublisher.packetSide, h.bids_side n hn, hsame]

lemma Wf.openAt_asks {b : OrderBook} (h : b.Wf) {symbol : String}
    (hsym : ∀ n ∈ b.nodes, n.order.symbol = symbol) (price : Price) :
    (b.getOrders.map fun o => o.shown.at symbol '1' price).sum
      = levelTotal (b.asks.findD price []) := by
  have hbids : ((b.bids.flat.map Node.order).map fun o => o.shown.at symbol '1' price).sum = 0 := by
    refine List.sum_eq_zero fun x hx => ?_
    rw [List.map_map] at hx
    obtain ⟨n, hn, rfl⟩ := List.mem_map.mp hx
    refine if_neg fun hat => ?_
    have hside := hat.2.1
    simp [Order.shown, MarketDataPublisher.packetSide, h.bids_side n hn] at hside
  rw [levelTotal_findD h.asks_leveled, getOrders, nodes, List.map_append, List.map_append,
    List.sum_append, hbids, zero_add, List.map_map]
  refine congrArg List.sum (List.map_congr_left fun n hn => ?_)
  have hsame := hsym n (mem_nodes.mpr (Or.inr hn))
  simp [OrderState.at, Order.shown, MarketDataPublisher.packetSide, h.asks_side n hn, hsame]

end OrderBook

namespace System

namespace BooksSound

variable {books : StrMap OrderBook} {known : String → Prop}

/-- The orders of all books at the levels of one symbol are those of its book. -/
lemma sum_openAt (h : BooksSound books known) (symbol : String) (side : Char) (price : Price) :
    ((restingOrders books).map fun o => o.shown.at symbol side price).sum
      = (((books.lookup symbol).toList.flatMap OrderBook.getOrders).map
          fun o => o.shown.at symbol side price).sum := by
  have htotal : ((restingOrders books).map fun o => o.shown.at symbol side price).sum
      = Ledger.total (fun b => (b.getOrders.map fun o => o.shown.at symbol side price).sum)
          books := by
    rw [restingOrders, Ledger.total, List.map_flatMap, List.flatMap, List.sum_flatten, List.map_map]
    rfl
  -- an order of another book is not at a level of the symbol
  have hother : ∀ {kv}, kv ∈ (books.erase symbol).entries →
      (kv.2.getOrders.map fun o => o.shown.at symbol side price).sum = 0 := by
    intro kv hkv
    have hlookup := AList.mem_lookup_iff.mpr hkv
    refine List.sum_eq_zero fun x hx => ?_
    obtain ⟨o, ho, rfl⟩ := List.mem_map.mp hx
    obtain ⟨n, hn, rfl⟩ := List.mem_map.mp ho
    refine if_neg fun hat => ?_
    have hsym := (h.orders kv.1 kv.2 (lookup_of_lookup_erase hlookup) n hn).1
    have heq : kv.1 = symbol := hsym.symm.trans hat.1
    rw [Option.mem_def, heq, AList.lookup_erase] at hlookup
    exact absurd hlookup (by simp)
  have hzero : Ledger.total (fun b => (b.getOrders.map fun o => o.shown.at symbol side price).sum)
      (books.erase symbol) = 0 := by
    refine List.sum_eq_zero fun x hx => ?_
    obtain ⟨kv, hkv, rfl⟩ := List.mem_map.mp hx
    exact hother hkv
  rw [htotal]
  cases hb : books.lookup symbol with
  | none => rw [← Ledger.total_erase_of_none hb, hzero]; rfl
  | some b =>
    rw [Ledger.total_erase_of_some hb, hzero, add_zero]
    simp

end BooksSound

end System

/-! ## The subscriber as a copy of the book -/

/-- What a subscriber has that has applied every packet sent, starting from empty books. -/
def subscriber (symbols : List String) (m : MarketDataPublisher) : Subscriber :=
  m.sent.foldl Subscriber.receive (Subscriber.init symbols)

lemma Subscriber.bookOf_init (symbols : List String) (symbol : String) :
    (Subscriber.init symbols).bookOf symbol = ⟨∅, ∅⟩ := by
  rw [bookOf, init]
  dsimp only
  induction symbols with
  | nil => rfl
  | cons sym symbols ih =>
    rw [List.foldr_cons]
    by_cases hs : symbol = sym
    · subst hs
      rw [AList.lookup_insert]
      rfl
    · rw [AList.lookup_insert_ne hs]
      exact ih

lemma reflects_init (symbols : List String) :
    Reflects (Subscriber.init symbols) Ledger.empty := by
  refine ⟨fun id o ho => absurd ho (by simp [Ledger.empty]), Ledger.ofAList_empty, ?_⟩
  intro symbol side price hside
  rw [Subscriber.levels, Subscriber.bookOf_init]
  rcases hside with rfl | rfl <;> rfl

/-- A subscriber of the feed is a copy of the book, as long as the texts of the orders fit in
its packets. -/
def feed (symbols : List String) : Follower Order.TextsFit Subscriber where
  read m _ := subscriber symbols m
  apply s n := n.hear s
  shows := Reflects
  read_notice m _ n := n.foldl_publish m (Subscriber.init symbols)
  read_applyNext _ _ _ _ := rfl
  read_symbol _ _ _ := rfl
  shows_start _ _ := reflects_init symbols
  shows_notice _ _ _ h hfits htexts := h.hear hfits htexts

/-- The ids of the orders fit in a packet as long as the counter is an `int`. -/
lemma textFits_exchangeId {n : ℕ} (h : n ≤ 2147483647) : TextFits 16 (exchangeId n) := by
  have htext : (exchangeId n).toList = "EXCH-".toList ++ Nat.toDigits 10 n := by
    have hid : exchangeId n = "EXCH-" ++ n.repr := rfl
    rw [hid, String.toList_append, Nat.toList_repr]
  have hlength : (Nat.toDigits 10 n).length ≤ 10 :=
    (Nat.length_toDigits_le_iff (by decide) (by decide)).mpr (by omega)
  have hstart : ∀ c ∈ "EXCH-".toList, c ≠ '\x00' ∧ c.toNat < 128 :=
    List.forall_iff_forall_mem.mp (by decide)
  have hchars : ∀ c ∈ (exchangeId n).toList, c ≠ '\x00' ∧ c.toNat < 128 := by
    intro c hc
    rw [htext] at hc
    rcases List.mem_append.mp hc with hc | hc
    · exact hstart c hc
    · have hdigit := Nat.isDigit_of_mem_toDigits (by decide) (by decide) hc
      rw [Char.isDigit, Bool.and_eq_true, decide_eq_true_eq, decide_eq_true_eq] at hdigit
      refine ⟨?_, lt_of_le_of_lt hdigit.2 (by decide)⟩
      rintro rfl
      exact absurd hdigit.1 (by decide)
  refine ⟨?_, fun hlast => ?_, fun c hc => (hchars c hc).2⟩
  · rw [htext, List.length_append]
    have hfive : "EXCH-".toList.length = 5 := rfl
    omega
  · exact (hchars _ (List.mem_of_getLast? hlast)).1 rfl

namespace System

variable {s : System}

/-- The steps of a run in which the feed keeps up: no replace fills its order, the symbols of
the orders that are accepted fit in the packets, and the counter of the orders is an `int`. -/
structure Fed (s : System) (a : Action) : Prop where
  followed : s.Followed (fun o => TextFits 8 o.symbol) a
  counter : s.gateway.orderSeq < 2147483647

instance (s : System) (a : Action) : Decidable (s.Fed a) :=
  decidable_of_iff (s.Followed (fun o => TextFits 8 o.symbol) a ∧ s.gateway.orderSeq < 2147483647)
    ⟨fun ⟨hf, hc⟩ => ⟨hf, hc⟩, fun ⟨hf, hc⟩ => ⟨hf, hc⟩⟩

lemma Fed.textsFit {a : Action} (h : s.Fed a) : s.Followed Order.TextsFit a := by
  refine ⟨h.followed.positive, h.followed.quiet, ?_⟩
  have haccepting := h.followed.accepting
  unfold Accepting at haccepting ⊢
  split
  · rename_i msg session
    rcases onMessage_cases s session (.newOrder msg) with ⟨seq, sent, heq, -⟩ |
        ⟨m, o, hm, ho, heq⟩ | ⟨m, req, hm, -⟩ | ⟨m, req, hm, -⟩
    · simp only [heq]
    · simp only [heq] at haccepting ⊢
      refine ⟨?_, haccepting⟩
      rw [ho.exchangeId]
      exact textFits_exchangeId h.counter
    · exact absurd hm (by simp)
    · exact absurd hm (by simp)
  · trivial

/-- A subscriber has the orders and the totals of the levels. -/
structure FeedIsExact (s : System) (sub : Subscriber) : Prop where
  orders : ∀ id st, sub.orderState.lookup id = some st ↔
    ∃ sym b, s.engine.books.lookup sym = some b ∧
      ∃ n ∈ b.nodes, n.order.exchangeId = id ∧ n.order.shown = st
  bids : ∀ sym b, s.engine.books.lookup sym = some b → ∀ price qty,
    (sub.bookOf sym).bids.lookup price = some qty ↔
      0 < qty ∧ OrderBook.levelTotal (b.bids.findD price []) = qty
  asks : ∀ sym b, s.engine.books.lookup sym = some b → ∀ price qty,
    (sub.bookOf sym).asks.lookup price = some qty ↔
      0 < qty ∧ OrderBook.levelTotal (b.asks.findD price []) = qty
  others : ∀ sym, s.engine.books.lookup sym = none → ∀ price,
    (sub.bookOf sym).bids.lookup price = none ∧ (sub.bookOf sym).asks.lookup price = none

/-- A subscriber has the book. -/
structure FeedIsBook (s : System) (sub : Subscriber) : Prop where
  /-- The orders are those that rest, as they rest. -/
  orders : ∀ id st, sub.orderState.lookup id = some st ↔
    ∃ sym b, s.engine.books.lookup sym = some b ∧
      ∃ n ∈ b.nodes, n.order.exchangeId = id ∧ n.order.shown = st
  bids : ∀ sym b, s.engine.books.lookup sym = some b → ∀ price qty,
    (sub.bookOf sym).bids.lookup price = some qty ↔ ⟨price, qty⟩ ∈ b.getBids
  asks : ∀ sym b, s.engine.books.lookup sym = some b → ∀ price qty,
    (sub.bookOf sym).asks.lookup price = some qty ↔ ⟨price, qty⟩ ∈ b.getAsks
  /-- There is nothing for the symbols that have no book. -/
  others : ∀ sym, s.engine.books.lookup sym = none → ∀ price,
    (sub.bookOf sym).bids.lookup price = none ∧ (sub.bookOf sym).asks.lookup price = none

/-- The total of every level of every book is an `int`. -/
def LevelTotalsFit (s : System) : Prop := ∀ sym b, s.engine.books.lookup sym = some b →
  OrderBook.LevelTotalsFit b.bids ∧ OrderBook.LevelTotalsFit b.asks

instance (s : System) : Decidable s.LevelTotalsFit :=
  decidable_of_iff (∀ kv ∈ s.engine.books.entries,
      OrderBook.LevelTotalsFit kv.2.bids ∧ OrderBook.LevelTotalsFit kv.2.asks)
    ⟨fun h sym b hb => h ⟨sym, b⟩ (AList.mem_lookup_iff.mp hb),
      fun h kv hkv => h kv.1 kv.2 (AList.mem_lookup_iff.mpr hkv)⟩

lemma lookup_of_total {q qty : ℤ} :
    (if q ≤ 0 then none else some q) = some qty ↔ 0 < qty ∧ q = qty := by
  constructor
  · intro h
    split_ifs at h with hq
    obtain rfl := Option.some.inj h
    exact ⟨not_le.mp hq, rfl⟩
  · rintro ⟨hpos, rfl⟩
    exact if_neg (not_le.mpr hpos)

/-- A subscriber reflects the open orders that rest, which between two items are all that rest. -/
lemma feedIsExact_of_fed {cfg : Config} {as : List Action}
    (h : RunTo cfg Fed as s) (ht : s.tasks = []) (symbols : List String) :
    s.FeedIsExact (subscriber symbols s.gateway.publisher) := by
  have hs := sound_of_run h
  have hsync := synced_of_run (fun _ _ h => forwardsPositive_of_replacesPositive h.followed.positive) h
  have hagrees := hsync.active_agrees ht
  have hreflects : Reflects (subscriber symbols s.gateway.publisher) s.openBook := by
    have hshows := following_of_run (F := feed symbols) (h.mono fun _ _ h => h.textsFit)
    rw [Following, copy, ht, noticesOf_nil, List.foldl_nil] at hshows
    exact hshows
  -- what the gateway has of the resting orders looks as they do
  have hstate : Ledger.ofAList (subscriber symbols s.gateway.publisher).orderState
      = Ledger.map Order.shown (restingLedger s.engine.books) := by
    rw [hreflects.state, openBook, openOrders_of_no_tasks ht]
    funext id
    rw [Ledger.map_apply, Ledger.map_apply, Ledger.restrict]
    cases hid : restingLedger s.engine.books id with
    | none => rfl
    | some o =>
      obtain ⟨a, ha, hmirrors⟩ := hagrees id o hid
      rw [Option.isSome_some, if_pos rfl, ha, Option.map_some, Option.map_some]
      refine congrArg some ?_
      rw [Order.shown, hmirrors.price, hmirrors.leavesQty, hmirrors.symbol, hmirrors.side]
      rfl
  have htotal : ∀ symbol side price,
      openAt (subscriber symbols s.gateway.publisher).orderState symbol side price
        = (((s.engine.books.lookup symbol).toList.flatMap OrderBook.getOrders).map
            fun o => o.shown.at symbol side price).sum := fun symbol side price =>
    (Ledger.total_eq_sum hs.books.nodup hstate).trans (hs.books.sum_openAt symbol side price)
  have hlookup : ∀ symbol side price, side = '0' ∨ side = '1' →
      ((subscriber symbols s.gateway.publisher).levels symbol side).lookup price
        = if openAt (subscriber symbols s.gateway.publisher).orderState symbol side price ≤ 0
          then none
          else some
            (openAt (subscriber symbols s.gateway.publisher).orderState symbol side price) :=
    hreflects.tallies
  refine ⟨fun id st => ?_, fun sym b hb price qty => ?_, fun sym b hb price qty => ?_,
    fun sym hb price => ?_⟩
  · have hid := congrFun hstate id
    rw [Ledger.ofAList_apply, Ledger.map_apply] at hid
    rw [hid, Option.map_eq_some_iff]
    constructor
    · rintro ⟨o, ho, rfl⟩
      obtain ⟨sym, b, hb, n, hn, rfl, hnid⟩ := hs.books.resting_eq_some.mp ho
      exact ⟨sym, b, hb, n, hn, hnid, rfl⟩
    · rintro ⟨sym, b, hb, n, hn, hnid, rfl⟩
      exact ⟨n.order, hs.books.resting_eq_some.mpr ⟨sym, b, hb, n, hn, rfl, hnid⟩, rfl⟩
  · have hsym : ∀ n ∈ b.nodes, n.order.symbol = sym := fun n hn =>
      (hs.books.orders sym b hb n hn).1
    have hq : openAt (subscriber symbols s.gateway.publisher).orderState sym '0' price
        = OrderBook.levelTotal (b.bids.findD price []) := by
      rw [htotal, hb, Option.toList_some, List.flatMap_singleton,
        (hs.books.wf sym b hb).openAt_bids hsym]
    have hlevels := hlookup sym '0' price (Or.inl rfl)
    rw [Subscriber.levels, if_pos rfl, hq] at hlevels
    rw [hlevels, lookup_of_total]
  · have hsym : ∀ n ∈ b.nodes, n.order.symbol = sym := fun n hn =>
      (hs.books.orders sym b hb n hn).1
    have hq : openAt (subscriber symbols s.gateway.publisher).orderState sym '1' price
        = OrderBook.levelTotal (b.asks.findD price []) := by
      rw [htotal, hb, Option.toList_some, List.flatMap_singleton,
        (hs.books.wf sym b hb).openAt_asks hsym]
    have hlevels := hlookup sym '1' price (Or.inr rfl)
    rw [Subscriber.levels, if_neg (by decide), hq] at hlevels
    rw [hlevels, lookup_of_total]
  · have hq : ∀ side,
        openAt (subscriber symbols s.gateway.publisher).orderState sym side price = 0 := by
      intro side
      rw [htotal, hb]
      rfl
    have hbids := hlookup sym '0' price (Or.inl rfl)
    have hasks := hlookup sym '1' price (Or.inr rfl)
    rw [Subscriber.levels, if_pos rfl, hq] at hbids
    rw [Subscriber.levels, if_neg (by decide), hq] at hasks
    exact ⟨hbids, hasks⟩

/-- The resting orders of a run are open, and in the levels of their prices. -/
lemma openSides_of_run {cfg : Config} {ok : System → Action → Prop} {as : List Action}
    (hok : ∀ s a, ok s a → s.ForwardsPositive a) (h : RunTo cfg ok as s) {sym : String}
    {b : OrderBook} (hb : s.engine.books.lookup sym = some b) :
    b.Wf ∧ OrderBook.OpenSide b.bids ∧ OrderBook.OpenSide b.asks := by
  have hsync := synced_of_run hok h
  exact ⟨(sound_of_run h).founded.books.wf sym b hb,
    OrderBook.openSides fun n hn => (hsync.positive sym b hb n hn).1⟩

/-- **When the feed reconstructs the book**, whenever the engine thread is between two items,
drained queue or not: when the total of each level is an `int`. -/
theorem feed_is_book_iff {cfg : Config} {as : List Action}
    (h : RunTo cfg Fed as s) (ht : s.tasks = []) (symbols : List String) :
    s.FeedIsBook (subscriber symbols s.gateway.publisher) ↔ s.LevelTotalsFit := by
  have hexact := feedIsExact_of_fed h ht symbols
  have hsides : ∀ sym b, s.engine.books.lookup sym = some b →
      b.Wf ∧ OrderBook.OpenSide b.bids ∧ OrderBook.OpenSide b.asks := fun _ _ hb =>
    openSides_of_run (fun _ _ h => forwardsPositive_of_replacesPositive h.followed.positive) h hb
  constructor
  · intro hbook sym b hb
    obtain ⟨hwf, hbids, hasks⟩ := hsides sym b hb
    exact ⟨(hbids.levelsExact_iff hwf.bids_leveled).mp fun price qty =>
        (hbook.bids sym b hb price qty).symm.trans (hexact.bids sym b hb price qty),
      (hasks.levelsExact_iff hwf.asks_leveled).mp fun price qty =>
        (hbook.asks sym b hb price qty).symm.trans (hexact.asks sym b hb price qty)⟩
  · intro hfits
    refine ⟨hexact.orders, fun sym b hb price qty => ?_, fun sym b hb price qty => ?_,
      hexact.others⟩
    · obtain ⟨hwf, hbids, -⟩ := hsides sym b hb
      exact (hexact.bids sym b hb price qty).trans
        ((hbids.levelsExact_iff hwf.bids_leveled).mpr (hfits sym b hb).1 price qty).symm
    · obtain ⟨hwf, -, hasks⟩ := hsides sym b hb
      exact (hexact.asks sym b hb price qty).trans
        ((hasks.levelsExact_iff hwf.asks_leveled).mpr (hfits sym b hb).2 price qty).symm

/-- A sell order and a buy order that rest, and a replace of the buy order that trades at once
and rests at another price. -/
def sampleFeedRun : List Action :=
  Sample.submit (Sample.limit "a" '2' 5 10) Sample.alice ++ Sample.engine 2
    ++ Sample.submit (Sample.limit "b" '1' 3 9) Sample.bob ++ Sample.engine 2
    ++ Sample.forward (Sample.replace "c" "b" '1' 7 10) Sample.bob ++ Sample.engine 7

theorem feed_is_book_sample :
    ∃ s, RunTo Sample.config Fed sampleFeedRun s ∧ s.Drained ∧
      s.FeedIsBook (subscriber [] s.gateway.publisher) := by
  have hreach : ∃ s, RunTo Sample.config Fed sampleFeedRun s ∧ s.Drained ∧ s.LevelTotalsFit :=
    Transition.exists_reaches (by decide +kernel) (by decide +kernel)
  obtain ⟨s, hrun, hd, hfits⟩ := hreach
  exact ⟨s, hrun, hd, (feed_is_book_iff hrun hd.tasks []).mpr hfits⟩

/-- A sell order and a buy order that rest, and a replace of the buy order that fills it. -/
def filledReplaceFeedRun : List Action :=
  Sample.submit (Sample.limit "a" '2' 5 10) Sample.alice ++ Sample.engine 2
    ++ Sample.submit (Sample.limit "b" '1' 3 9) Sample.bob ++ Sample.engine 2
    ++ Sample.forward (Sample.replace "c" "b" '1' 3 10) Sample.bob ++ Sample.engine 7

/-- An order that a replace fills stays in the state of a subscriber, and so does its level. -/
theorem filled_order_stays :
    ∃ s, RunTo Sample.config (fun _ a => a.ReplacesPositive) filledReplaceFeedRun s ∧ s.Drained ∧
      ((subscriber [] s.gateway.publisher).levels "X" '0').lookup 9 = some 3 ∧
      ¬ s.FeedIsBook (subscriber [] s.gateway.publisher) := by
  have hreach : ∃ s, RunTo Sample.config (fun _ a => a.ReplacesPositive) filledReplaceFeedRun s ∧
      (s.Drained ∧ ((subscriber [] s.gateway.publisher).levels "X" '0').lookup 9 = some 3 ∧
        (subscriber [] s.gateway.publisher).orderState.lookup "EXCH-2" ≠ none ∧
        ∀ o ∈ restingOrders s.engine.books, o.exchangeId ≠ "EXCH-2") :=
    Transition.exists_reaches (by decide +kernel) (by decide +kernel)
  obtain ⟨s, hrun, hd, hlevel, hstate, hrest⟩ := hreach
  refine ⟨s, hrun, hd, hlevel, fun h => ?_⟩
  obtain ⟨st, hst⟩ := Option.ne_none_iff_exists'.mp hstate
  obtain ⟨sym, b, hb, n, hn, hid, -⟩ := (h.orders _ _).mp hst
  exact hrest n.order (mem_restingOrders.mpr ⟨sym, b, hb, n, hn, rfl⟩) hid

/-! ## All totals -/

/-- **The liquidity sums do not overflow**, in every book of every run whose replaces carry
positive quantities, exactly as long as the open quantity of each side is an `int`. -/
theorem totals_fit_iff_of_run {cfg : Config} {as : List Action}
    (h : RunTo cfg (fun _ a => a.ReplacesPositive) as s)
    {sym : String} {b : OrderBook} (hb : s.engine.books.lookup sym = some b) :
    b.TotalsFit ↔
      OrderBook.sideTotal b.bids ≤ maxInt ∧ OrderBook.sideTotal b.asks ≤ maxInt := by
  have hsync := synced_of_run (fun _ _ hok => forwardsPositive_of_replacesPositive hok) h
  exact OrderBook.totals_fit_iff ((sound_of_run h).founded.books.wf sym b hb)
    fun n hn => (hsync.positive sym b hb n hn).1

/-- Buy orders of these quantities rest at one price. -/
def restingBuys (qtys : List ℚ) : List Action :=
  qtys.flatMap fun qty => Sample.submit (Sample.limit "a" '1' qty 10) Sample.alice ++ Sample.engine 2

theorem totals_fit_iff_of_run_sample :
    ∃ s, RunTo Sample.config (fun _ a => a.ReplacesPositive) (restingBuys [5, 2147483642]) s ∧
      ∃ b, s.engine.books.lookup "X" = some b ∧ OrderBook.sideTotal b.bids = maxInt ∧
        b.TotalsFit := by
  have hreach : ∃ s, RunTo Sample.config (fun _ a => a.ReplacesPositive)
      (restingBuys [5, 2147483642]) s ∧
      (s.engine.books.lookup "X").any (fun b => decide (OrderBook.sideTotal b.bids = maxInt ∧
        OrderBook.sideTotal b.asks = 0)) = true :=
    Transition.exists_reaches (by decide +kernel) (by decide +kernel)
  obtain ⟨s, hrun, hbook⟩ := hreach
  obtain ⟨b, hb, htotals⟩ := Option.any_eq_true _ _ |>.mp hbook
  obtain ⟨hbids, hasks⟩ := of_decide_eq_true htotals
  exact ⟨s, hrun, b, hb, hbids,
    (totals_fit_iff_of_run hrun hb).mpr ⟨hbids.le, by rw [hasks]; decide⟩⟩

/-- A fill or kill order to sell one share at 10. -/
def fokSell : Order where
  clordId := "b"
  exchangeId := "EXCH-3"
  clientId := "B"
  symbol := "X"
  side := '2'
  type := '2'
  price := 10
  qty := 1
  leavesQty := 1
  tif := '4'

/-- Two orders of the largest quantity rest at one price: the level is not reported, and a fill
or kill order for one share is refused. -/
theorem totals_overflow :
    ∃ s, RunTo Sample.config (fun _ a => a.ReplacesPositive)
      (restingBuys [2147483647, 2147483647]) s ∧
      ∃ b, s.engine.books.lookup "X" = some b ∧ b.availableToFill fokSell = -2 ∧
        b.availableExact fokSell = 4294967294 ∧ b.getBids = [] ∧
        b.bids.entries.map (fun e => (e.1, OrderBook.levelTotal e.2)) = [(10, 4294967294)] ∧
        ¬ b.TotalsFit := by
  have hreach : ∃ s, RunTo Sample.config (fun _ a => a.ReplacesPositive)
      (restingBuys [2147483647, 2147483647]) s ∧
      (s.engine.books.lookup "X").any (fun b => decide (b.availableToFill fokSell = -2 ∧
        b.availableExact fokSell = 4294967294 ∧ b.getBids = [] ∧
        b.bids.entries.map (fun e => (e.1, OrderBook.levelTotal e.2)) = [(10, 4294967294)])) = true :=
    Transition.exists_reaches (by decide +kernel) (by decide +kernel)
  obtain ⟨s, hrun, hbook⟩ := hreach
  obtain ⟨b, hb, htotals⟩ := Option.any_eq_true _ _ |>.mp hbook
  obtain ⟨h1, h2, h3, h4⟩ := of_decide_eq_true htotals
  refine ⟨s, hrun, b, hb, h1, h2, h3, h4, fun hfit => ?_⟩
  have heq := hfit.available fokSell
  rw [h1, h2] at heq
  exact absurd heq (by decide)

end System

end FixExchange
