/-
# The times of the trades in the chart

The gateway writes the time of a historical trade in UTC (`onMessage` for a market data request,
tags 272 and 273), and `_process_md_snapshot` reads it back as a local time: the point lies off
by the local offset of the host.  A live trade is put at its true time by `MdProtocol`.  The
calendar is a parameter; what the reading relies on is that `strptime` undoes `gmtime` and
`strftime`.
-/
import FixExchange.Lib.Spaced
import FixExchange.Ui.Snapshot

namespace FixExchange

namespace FixClient

/-- `gmtime_r` and `strftime`, and the functions of `datetime` that read what they have written. -/
structure Civil (D : Type) where
  gmtime : ℤ → D
  /-- `%Y%m%d`. -/
  date : D → Text
  /-- `%02d:%02d:%02d`, of the hour, the minute and the second. -/
  clock : D → Text
  /-- `strptime` with `%Y%m%d%H:%M:%S.%f`: a date-time and the fraction of a second. -/
  strptime : Text → Option (D × ℚ)
  /-- `timestamp()` on a host without a local offset. -/
  timestamp : D → ℤ

variable {D : Type}

/-- `%03d`. -/
def pad3 (n : ℤ) : Text :=
  let digits := str n.natAbs
  if n < 0 then '-' :: (List.replicate (2 - digits.length) '0' ++ digits)
  else List.replicate (3 - digits.length) '0' ++ digits

/-- `t.ts / 1'000'000'000LL`. -/
def tradeSecs (ts : ℤ) : ℤ := ts.tdiv 1000000000

/-- `(t.ts % 1'000'000'000LL) / 1'000'000LL`. -/
def tradeMs (ts : ℤ) : ℤ := (ts.tmod 1000000000).tdiv 1000000

/-- The texts that the gateway writes; `time_buf` has room for twelve characters. -/
def Civil.format (c : Civil D) (px : Price → Text) (size : ℤ → Text) : TextFormat where
  px := px
  size := size
  date ts := c.date (c.gmtime (tradeSecs ts))
  time ts := (c.clock (c.gmtime (tradeSecs ts)) ++ '.' :: pad3 (tradeMs ts)).take 12

/-- `strptime` and `timestamp()`, on a host with a local offset. -/
def Civil.read (c : Civil D) (offset : ℚ) (text : Text) : Option ℚ :=
  (c.strptime text).map fun dt => c.timestamp dt.1 + dt.2 - offset

/-- The calendar reads back what it has written for a second. -/
structure Civil.Inverse (c : Civil D) (secs : ℤ) : Prop where
  date : c.date (c.gmtime secs) ≠ []
  clock : (c.clock (c.gmtime secs)).length = 8
  strptime : ∀ ms : ℕ, ms < 1000 →
    c.strptime (c.date (c.gmtime secs) ++ (c.clock (c.gmtime secs) ++ '.' :: pad3 ms))
      = some (c.gmtime secs, (ms : ℚ) / 1000)
  timestamp : c.timestamp (c.gmtime secs) = secs

/-- `datagram_received` at a time: the packet is applied, and a trade is appended to the history
of its symbol. -/
def MarketState.receive (s : MarketState) (now : ℚ) (pkt : MdPacket) : MarketState :=
  match Subscriber.decode pkt.symbol, Subscriber.decode pkt.exchangeId with
  | some symbol, some exchangeId =>
    { subscriber :=
        s.subscriber.applyMd pkt.eventType pkt.side symbol pkt.price pkt.qty exchangeId
      tradeHistory :=
        if pkt.side = '2' then
          let hist := (s.tradeHistory.lookup symbol).getD []
          let last := (hist.getLast?.map TradePoint.time).getD 0
          s.tradeHistory.insert symbol (hist ++ [⟨max now (last + 1 / 1000), pkt.price⟩])
        else s.tradeHistory }
  | _, _ => s

/-- The packet is a trade print of the symbol. -/
def IsTradeOf (symbol : String) (pkt : MdPacket) : Prop :=
  Subscriber.decode pkt.symbol = some symbol ∧ (Subscriber.decode pkt.exchangeId).isSome ∧
    pkt.side = '2'

instance (symbol : String) (pkt : MdPacket) : Decidable (IsTradeOf symbol pkt) :=
  inferInstanceAs (Decidable (_ ∧ _ ∧ _))

/-- The points of the chart of a symbol. -/
def MarketState.chart (s : MarketState) (symbol : String) : List TradePoint :=
  (s.tradeHistory.lookup symbol).getD []

/-! ## The chart that should come out -/

/-- The true time of a trade, truncated to milliseconds. -/
def HistoricalTrade.msTime (t : HistoricalTrade) : ℚ := (t.ts / 1000000 : ℤ) / 1000

/-- The trades of a symbol that arrive live. -/
def liveTrades (symbol : String) (live : List (ℚ × MdPacket)) : List (ℚ × MdPacket) :=
  live.filter fun x => IsTradeOf symbol x.2

/-- The historical trades that are points of the chart: those with a quantity. -/
def shownTrades (trades : List HistoricalTrade) : List HistoricalTrade :=
  trades.filter fun t => 0 < t.qty

lemma shownTrades_cons (t : HistoricalTrade) (trades : List HistoricalTrade) :
    shownTrades (t :: trades) =
      if 0 < t.qty then t :: shownTrades trades else shownTrades trades := by
  rw [shownTrades, List.filter_cons]
  simp only [decide_eq_true_eq]
  rfl

lemma liveTrades_cons (symbol : String) (x : ℚ × MdPacket) (live : List (ℚ × MdPacket)) :
    liveTrades symbol (x :: live) =
      if IsTradeOf symbol x.2 then x :: liveTrades symbol live else liveTrades symbol live := by
  rw [liveTrades, List.filter_cons]
  simp only [decide_eq_true_eq]
  rfl

/-- The chart is strictly increasing, and has the historical and the live trades, each at its
time or a millisecond after the point before. -/
structure TimesSurvive (symbol : String) (trades : List HistoricalTrade)
    (live : List (ℚ × MdPacket)) (chart : List TradePoint) : Prop where
  increasing : (chart.map TradePoint.time).Pairwise (· < ·)
  placed : Spaced.Placed (1 / 1000) none
    ((shownTrades trades).map HistoricalTrade.msTime ++ (liveTrades symbol live).map Prod.fst)
    (chart.map TradePoint.time)
  values : chart.map TradePoint.value = (shownTrades trades).map HistoricalTrade.price ++
    (liveTrades symbol live).map fun x => x.2.price

/-- When the times survive: there is no local offset, and no time before the first millisecond
of the epoch; or no trade but ones that are moved. -/
def OnTime (offset : ℚ) (trades : List HistoricalTrade) (live : List (ℚ × MdPacket)) : Prop :=
  match trades with
  | [] => ∀ x ∈ live.head?, 1 / 1000 ≤ x.1
  | t :: ts => (offset = 0 ∧ 1 / 1000 ≤ t.msTime) ∨ (0 < offset ∧ t.msTime = 1 / 1000 ∧
      ∀ i (h : i < ts.length), ts[i].msTime - offset ≤ (i + 2 : ℕ) / 1000)

/-! ## The text of a time -/

lemma pad3_length {ms : ℕ} (h : ms < 1000) : (pad3 ms).length = 3 := by
  have hlen : (str ms).length ≤ 3 :=
    (Nat.length_toDigits_le_iff (by decide) (by decide)).mpr (by omega)
  rw [pad3, if_neg (by omega), Int.natAbs_natCast, List.length_append, List.length_replicate]
  omega

/-- **A time is read back**, in milliseconds, and off by the local offset. -/
theorem read_format {c : Civil D} {ts : ℤ} (hts : 0 ≤ ts) (h : c.Inverse (tradeSecs ts))
    (offset : ℚ) (px : Price → Text) (size : ℤ → Text) (t : HistoricalTrade) (ht : t.ts = ts) :
    c.read offset ((c.format px size).date ts ++ (c.format px size).time ts)
      = some (t.msTime - offset) := by
  have hsecs : tradeSecs ts = ts / 1000000000 := Int.tdiv_eq_ediv_of_nonneg hts
  obtain ⟨ms, hms⟩ : ∃ ms : ℕ, tradeMs ts = ms := by
    refine Int.eq_ofNat_of_zero_le ?_
    rw [tradeMs, Int.tmod_eq_emod_of_nonneg hts, Int.tdiv_eq_ediv_of_nonneg (by omega)]
    omega
  have hval : (ms : ℤ) = ts % 1000000000 / 1000000 := by
    rw [← hms, tradeMs, Int.tmod_eq_emod_of_nonneg hts, Int.tdiv_eq_ediv_of_nonneg (by omega)]
  have hlt : ms < 1000 := by omega
  have htime : (c.format px size).time ts
      = c.clock (c.gmtime (tradeSecs ts)) ++ '.' :: pad3 ms := by
    simp only [Civil.format, hms]
    refine List.take_of_length_le ?_
    rw [List.length_append, h.clock, List.length_cons, pad3_length hlt]
  have hsum : tradeSecs ts * 1000 + ms = ts / 1000000 := by omega
  have hmilli : t.msTime = tradeSecs ts + (ms : ℚ) / 1000 := by
    rw [HistoricalTrade.msTime, ht, ← hsum]
    push_cast
    ring
  have hdate : (c.format px size).date ts = c.date (c.gmtime (tradeSecs ts)) := rfl
  rw [htime, hdate, Civil.read, h.strptime ms hlt, Option.map_some, hmilli]
  simp only [h.timestamp]

/-! ## Points that are appended -/

/-- The chart has been made of points at some times, one after the other. -/
structure Charted (chart points : List TradePoint) : Prop where
  times : chart.map TradePoint.time = Spaced.spread (1 / 1000) 0 (points.map TradePoint.time)
  values : chart.map TradePoint.value = points.map TradePoint.value

lemma Charted.snoc {chart points : List TradePoint} (h : Charted chart points) (e : TradePoint) :
    Charted (chart ++
        [⟨max e.time ((chart.getLast?.map TradePoint.time).getD 0 + 1 / 1000), e.value⟩])
      (points ++ [e]) := by
  constructor
  · rw [List.map_append, List.map_append, List.map_singleton, List.map_singleton,
      Spaced.spread_snoc, ← h.times, List.getLast?_map]
  · rw [List.map_append, List.map_append, h.values]
    rfl

/-- What `_process_md_snapshot` reads of a trade. -/
def readTrade (strptime : Text → Option ℚ) (fmt : TextFormat) (t : HistoricalTrade) :
    Option TradePoint :=
  if 0 < t.qty ∧ fmt.date t.ts ≠ [] ∧ fmt.time t.ts ≠ [] then
    (strptime (fmt.date t.ts ++ fmt.time t.ts)).map fun time => ⟨time, t.price⟩
  else none

section Seeding

variable (strptime : Text → Option ℚ) (symbol : String) {fmt : TextFormat}

/-- The entry of an order does not change the chart. -/
lemma trades_seedEntry_order (f : Seed) (o : Order) :
    (seedEntry strptime symbol f (orderEntry o)).trades = f.trades := by
  have hset : ∀ (f : Seed) (eid : Option Text) (st : OrderState),
      (f.setState eid st).trades = f.trades := by
    intro f eid st
    cases eid with
    | none => rfl
    | some id =>
      rw [Seed.setState]
      split_ifs <;> rfl
  by_cases hqty : o.leavesQty ≤ 0
  · simp [seedEntry, orderEntry, hqty]
  · by_cases hside : o.side = '1'
    · simp [seedEntry, orderEntry, hqty, hside, hset]
    · simp [seedEntry, orderEntry, hqty, hside, hset]

lemma trades_orders (f : Seed) (orders : List Order) :
    ((orders.map orderEntry).foldl (seedEntry strptime symbol) f).trades = f.trades := by
  induction orders generalizing f with
  | nil => rfl
  | cons o orders ih =>
    rw [List.map_cons, List.foldl_cons, ih, trades_seedEntry_order]

/-- The entry of a trade appends what is read of it. -/
lemma trades_seedEntry_trade (fmt : TextFormat) (f : Seed) (t : HistoricalTrade) :
    (seedEntry strptime symbol f (tradeEntry fmt t)).trades =
      match readTrade strptime fmt t with
      | none => f.trades
      | some e => (f.addTrade e.time e.value).trades := by
  by_cases hqty : 0 < t.qty
  · by_cases hshown : fmt.date t.ts ≠ [] ∧ fmt.time t.ts ≠ []
    · cases hread : strptime (fmt.date t.ts ++ fmt.time t.ts) <;>
        simp [seedEntry, tradeEntry, readTrade, not_le.mpr hqty, hqty, hshown, hread]
    · simp only [seedEntry, tradeEntry, readTrade, Option.getD_some, if_neg (not_le.mpr hqty),
        hqty, hshown, true_and, if_false]
      simp
  · simp [seedEntry, tradeEntry, readTrade, hqty, not_lt.mp hqty]

/-- The chart after the entries of the trades. -/
lemma charted_trades (fmt : TextFormat) {points : List TradePoint} (trades : List HistoricalTrade)
    (f : Seed)
    (h : Charted f.trades points) :
    Charted ((trades.map (tradeEntry fmt)).foldl (seedEntry strptime symbol) f).trades
      (points ++ trades.filterMap (readTrade strptime fmt)) := by
  induction trades generalizing f points with
  | nil => simpa using h
  | cons t trades ih =>
    have hstep := trades_seedEntry_trade strptime symbol fmt f t
    rw [List.map_cons, List.foldl_cons, List.filterMap_cons]
    cases hread : readTrade strptime fmt t with
    | none =>
      rw [hread] at hstep
      exact ih _ (hstep ▸ h)
    | some e =>
      rw [hread] at hstep
      have hone : Charted (seedEntry strptime symbol f (tradeEntry fmt t)).trades
          (points ++ [e]) := by
        rw [hstep]
        exact h.snoc e
      have hsnoc := ih _ hone
      rwa [List.append_assoc] at hsnoc

/-- **The chart after a snapshot**, where there was none before. -/
theorem charted_snapshot {orders : List Order} {trades : List HistoricalTrade}
    {p : Parsed Price} (hsymbol : p.fields.lookup "55".toList = some symbol.toList)
    (hentries : p.mdEntries = some (orders.map orderEntry ++ trades.map (tradeEntry fmt)))
    {s : MarketState} (hsym : symbol ∈ s.subscriber.orderBook)
    (hempty : s.tradeHistory.lookup symbol = none) :
    Charted ((processMdSnapshot strptime s p).chart symbol)
      (trades.filterMap (readTrade strptime fmt)) := by
  have hstart : Charted ((orders.map orderEntry).foldl (seedEntry strptime symbol)
      ⟨∅, ∅, s.subscriber.orderState, []⟩).trades [] := by
    rw [trades_orders]
    exact ⟨rfl, rfl⟩
  have hbuilt := charted_trades strptime symbol fmt trades _ hstart
  rw [List.nil_append, ← List.foldl_append] at hbuilt
  simp only [MarketState.chart, processMdSnapshot, hsymbol, hentries, Option.getD_some,
    String.ofList_toList, if_pos hsym]
  revert hbuilt
  generalize (orders.map orderEntry ++ trades.map (tradeEntry fmt)).foldl
    (seedEntry strptime symbol) ⟨∅, ∅, s.subscriber.orderState, []⟩ = f
  intro hbuilt
  split_ifs with hnone
  · rw [hempty, Option.getD_none, ← hnone]
    exact hbuilt
  · rw [AList.lookup_insert, Option.getD_some]
    exact hbuilt

/-- One packet of the feed. -/
lemma charted_receive {s : MarketState} {points : List TradePoint}
    (h : Charted (s.chart symbol) points) (now : ℚ) (pkt : MdPacket) :
    Charted ((s.receive now pkt).chart symbol)
      (points ++ if IsTradeOf symbol pkt then [⟨now, pkt.price⟩] else []) := by
  by_cases htrade : IsTradeOf symbol pkt
  · obtain ⟨hsymbol, hid, hside⟩ := htrade
    obtain ⟨id, hid⟩ := Option.isSome_iff_exists.mp hid
    rw [if_pos ⟨hsymbol, by rw [hid]; rfl, hside⟩]
    simp only [MarketState.receive, hsymbol, hid, hside, if_true, MarketState.chart,
      AList.lookup_insert, Option.getD_some]
    exact h.snoc ⟨now, pkt.price⟩
  · rw [if_neg htrade, List.append_nil]
    have hsame : (s.receive now pkt).chart symbol = s.chart symbol := by
      simp only [MarketState.receive, MarketState.chart]
      split
      · rename_i sym id hsymbol hid
        split_ifs with hside
        · have hne : symbol ≠ sym := by
            rintro rfl
            exact htrade ⟨hsymbol, by rw [hid]; rfl, hside⟩
          rw [AList.lookup_insert_ne hne]
        · rfl
      · rfl
    rw [hsame]
    exact h

/-- **The chart after packets of the feed.** -/
theorem charted_live {s : MarketState} {points : List TradePoint}
    (h : Charted (s.chart symbol) points) (live : List (ℚ × MdPacket)) :
    Charted ((live.foldl (fun s x => s.receive x.1 x.2) s).chart symbol)
      (points ++ (liveTrades symbol live).map fun x => ⟨x.1, x.2.price⟩) := by
  induction live generalizing s points with
  | nil => simpa [liveTrades] using h
  | cons x live ih =>
    have hrest := ih (charted_receive symbol h x.1 x.2)
    rw [liveTrades_cons]
    rw [List.append_assoc] at hrest
    split_ifs at hrest ⊢ with htrade
    · exact hrest
    · exact hrest

end Seeding

/-! ## When the times survive -/

section Survive

variable {c : Civil D} {offset : ℚ} {px : Price → Text} {size : ℤ → Text}
  {trades : List HistoricalTrade}

/-- What is read of trades that are not before the epoch. -/
lemma filterMap_readTrade (hread : ∀ t ∈ trades, 0 ≤ t.ts → c.Inverse (tradeSecs t.ts))
    (hpos : ∀ t ∈ shownTrades trades, 0 ≤ t.ts) :
    trades.filterMap (readTrade (c.read offset) (c.format px size)) =
      (shownTrades trades).map fun t => ⟨t.msTime - offset, t.price⟩ := by
  induction trades with
  | nil => rfl
  | cons t trades ih =>
    have ih := ih (fun t' ht' => hread t' (by simp [ht'])) fun t' ht' => hpos t' (by
      rw [shownTrades_cons]
      split_ifs
      · exact List.mem_cons_of_mem _ ht'
      · exact ht')
    rw [List.filterMap_cons, ih, shownTrades_cons]
    by_cases hqty : 0 < t.qty
    · have hts : 0 ≤ t.ts := hpos t (by simp [shownTrades_cons, hqty])
      have hinv := hread t (by simp) hts
      have htext := read_format hts hinv offset px size t rfl
      have htime : (c.format px size).time t.ts ≠ [] := by
        intro hnil
        have hlen := congrArg List.length hnil
        simp [Civil.format, hinv.clock] at hlen
      have hone : readTrade (c.read offset) (c.format px size) t
          = some ⟨t.msTime - offset, t.price⟩ := by
        rw [readTrade, if_pos ⟨hqty, hinv.date, htime⟩, htext]
        rfl
      rw [hone, if_pos hqty]
      rfl
    · have hnone : readTrade (c.read offset) (c.format px size) t = none :=
        if_neg fun h => hqty h.1
      rw [hnone, if_neg hqty]

/-- Where no trade is shown, none is read. -/
lemma filterMap_of_shown_nil (hnil : shownTrades trades = []) :
    trades.filterMap (readTrade (c.read offset) (c.format px size)) = [] := by
  refine List.filterMap_eq_nil_iff.mpr fun t ht => if_neg fun h => ?_
  have hmem : t ∈ shownTrades trades := List.mem_filter.mpr ⟨ht, decide_eq_true h.1⟩
  rw [hnil] at hmem
  exact List.not_mem_nil hmem

lemma times_map (live : List (ℚ × MdPacket)) :
    (live.map fun x => (⟨x.1, x.2.price⟩ : TradePoint)).map TradePoint.time
      = live.map Prod.fst := by
  rw [List.map_map]
  rfl

lemma values_map (live : List (ℚ × MdPacket)) :
    (live.map fun x => (⟨x.1, x.2.price⟩ : TradePoint)).map TradePoint.value
      = live.map fun x => x.2.price := by
  rw [List.map_map]
  rfl

/-- A chart made of these points is strictly increasing. -/
lemma Charted.increasing {chart points : List TradePoint} (h : Charted chart points) :
    (chart.map TradePoint.time).Pairwise (· < ·) := by
  rw [h.times]
  exact (List.pairwise_cons.mp (Spaced.spread_increasing (by norm_num) 0 _)).2

/-- **Live trades** survive when the first one is not before the first millisecond. -/
lemma survive_live {symbol : String} {live : List (ℚ × MdPacket)} {chart : List TradePoint}
    (hnil : shownTrades trades = [])
    (h : Charted chart ((liveTrades symbol live).map fun x => ⟨x.1, x.2.price⟩)) :
    TimesSurvive symbol trades live chart ↔
      ∀ x ∈ (liveTrades symbol live).head?, 1 / 1000 ≤ x.1 := by
  have hplaced : TimesSurvive symbol trades live chart ↔
      Spaced.Placed (1 / 1000) none ((liveTrades symbol live).map Prod.fst)
        (Spaced.spread (1 / 1000) 0 ((liveTrades symbol live).map Prod.fst)) := by
    have htimes := h.times
    rw [times_map] at htimes
    constructor
    · intro hs
      have hplaced := hs.placed
      rwa [hnil, htimes] at hplaced
    · intro hplaced
      refine ⟨h.increasing, ?_, ?_⟩
      · rw [hnil, htimes]
        exact hplaced
      · rw [hnil, h.values, values_map]
        rfl
  rw [hplaced]
  cases hlive : liveTrades symbol live with
  | nil => simp
  | cons x xs =>
    rw [List.map_cons, Spaced.spread_cons, Spaced.placed_cons]
    simp only [List.head?_cons, Option.mem_def, Option.some.injEq, forall_eq', reduceCtorEq,
      false_and, exists_false, or_false, zero_add, max_eq_left_iff, Spaced.placed_spread, and_true]

/-- **Historical trades that are read** survive without a local offset, and else only where they
are moved. -/
lemma survive_shown {symbol : String} {live : List (ℚ × MdPacket)} {chart : List TradePoint}
    {t : HistoricalTrade} {ts : List HistoricalTrade} (hcons : shownTrades trades = t :: ts)
    (hfirst : 1 / 1000 ≤ t.msTime)
    (h : Charted chart (((shownTrades trades).map fun t => ⟨t.msTime - offset, t.price⟩) ++
      (liveTrades symbol live).map fun x => ⟨x.1, x.2.price⟩)) :
    TimesSurvive symbol trades live chart ↔ OnTime offset (t :: ts) (liveTrades symbol live) := by
  have htimes : chart.map TradePoint.time = Spaced.spread (1 / 1000) 0
      ((t.msTime - offset) :: ((ts.map HistoricalTrade.msTime).map (fun e => e - offset) ++
        (liveTrades symbol live).map Prod.fst)) := by
    rw [h.times, List.map_append, times_map, hcons, List.map_map, List.map_cons, List.map_map]
    rfl
  have hplaced : TimesSurvive symbol trades live chart ↔ Spaced.Placed (1 / 1000) none
      (t.msTime :: (ts.map HistoricalTrade.msTime ++ (liveTrades symbol live).map Prod.fst))
      (Spaced.spread (1 / 1000) 0 ((t.msTime - offset) ::
        ((ts.map HistoricalTrade.msTime).map (fun e => e - offset) ++
          (liveTrades symbol live).map Prod.fst))) := by
    constructor
    · intro hs
      have hplaced := hs.placed
      rwa [hcons, htimes] at hplaced
    · intro hplaced
      refine ⟨h.increasing, ?_, ?_⟩
      · rw [hcons, htimes]
        exact hplaced
      · rw [h.values, List.map_append, values_map, List.map_map]
        rfl
  rw [hplaced, OnTime]
  by_cases hoff : offset = 0
  · -- every point is at its time, or moved
    simp only [hoff, sub_zero, List.map_id', true_and, lt_irrefl, false_and, or_false,
      iff_true_intro hfirst, iff_true]
    rw [Spaced.spread_cons, Spaced.placed_cons]
    refine ⟨Or.inl (max_eq_left (by linarith)), ?_⟩
    exact Spaced.placed_spread _ _ _
  · rw [Spaced.placed_first hoff]
    simp only [hoff, false_and, false_or, zero_add, List.length_map, List.getElem_map]
    refine and_congr_right fun _ => and_congr_right fun hms => forall_congr' fun i =>
      forall_congr' fun _ => ?_
    have hsum : t.msTime + (i + 1 : ℕ) * (1 / 1000) = ((i + 2 : ℕ) : ℚ) / 1000 := by
      rw [hms]
      push_cast
      ring
    rw [hsum]

/-- **The trip of the times**: they survive exactly when `OnTime` holds, for every list of trades
in the order of their times and every sequence of packets of the feed. -/
theorem trade_times_iff {symbol : String} {py : PyFloat Price} {orders : List Order}
    {hdr : MdHeader symbol} {m : FixMessage}
    (horders : ∀ o ∈ orders, (c.format px size).ReadsBack py o.price o.leavesQty)
    (htrades : ∀ t ∈ trades, (c.format px size).ReadsBack py t.price t.qty)
    (hm : m.body = hdr.fields ++ mdGroups (c.format px size) orders trades)
    (hread : ∀ t ∈ trades, 0 ≤ t.ts → c.Inverse (tradeSecs t.ts))
    (hsorted : trades.Pairwise fun t t' => t.ts ≤ t'.ts) (offset : ℚ) {s : MarketState}
    (hsym : symbol ∈ s.subscriber.orderBook) (hempty : s.tradeHistory.lookup symbol = none)
    (live : List (ℚ × MdPacket)) :
    ∃ p, parseFields py m.raw = some p ∧
      (TimesSurvive symbol trades live ((live.foldl (fun s x => s.receive x.1 x.2)
          (processMdSnapshot (c.read offset) s p)).chart symbol) ↔
        OnTime offset (shownTrades trades) (liveTrades symbol live)) := by
  obtain ⟨p, hparse, hsymbol, hentries⟩ := parseFields_snapshot horders htrades hm
  refine ⟨p, hparse, ?_⟩
  have hchart := charted_live symbol
    (charted_snapshot (c.read offset) symbol hsymbol hentries hsym hempty) live
  revert hchart
  generalize (live.foldl (fun s x => s.receive x.1 x.2)
    (processMdSnapshot (c.read offset) s p)).chart symbol = chart
  intro hchart
  cases hshown : shownTrades trades with
  | nil =>
    rw [filterMap_of_shown_nil hshown, List.nil_append] at hchart
    exact survive_live hshown hchart
  | cons t ts =>
    -- either side says that the first trade is not before the first millisecond
    have hfirst : TimesSurvive symbol trades live chart ∨
        OnTime offset (t :: ts) (liveTrades symbol live) → 1 / 1000 ≤ t.msTime := by
      rintro (hs | ⟨-, hle⟩ | ⟨-, heq, -⟩)
      · have hplaced := hs.placed
        rw [hshown, hchart.times] at hplaced
        simpa using Spaced.le_of_placed hplaced
      · exact hle
      · exact heq.ge
    have hiff : 1 / 1000 ≤ t.msTime → (TimesSurvive symbol trades live chart ↔
        OnTime offset (t :: ts) (liveTrades symbol live)) := by
      intro hle
      have hmilli : 1 ≤ t.ts / 1000000 := by
        rw [HistoricalTrade.msTime, div_le_div_iff_of_pos_right (by norm_num)] at hle
        exact_mod_cast hle
      have hpos : ∀ t' ∈ shownTrades trades, 0 ≤ t'.ts := by
        have hpair : (shownTrades trades).Pairwise fun t t' => t.ts ≤ t'.ts :=
          hsorted.sublist List.filter_sublist
        rw [hshown] at hpair ⊢
        intro t' ht'
        rcases List.mem_cons.mp ht' with rfl | ht'
        · omega
        · have hle := (List.pairwise_cons.mp hpair).1 t' ht'
          omega
      rw [filterMap_readTrade hread hpos] at hchart
      exact survive_shown hshown hle hchart
    exact ⟨fun hs => (hiff (hfirst (Or.inl hs))).mp hs,
      fun ho => (hiff (hfirst (Or.inr ho))).mpr ho⟩

end Survive

namespace Sample

/-- 2026-01-01, in seconds of the epoch. -/
def newYear : ℤ := 1767225600

def pad2 (n : ℕ) : Text := [Nat.digitChar (n / 10), Nat.digitChar (n % 10)]

/-- The calendar of one day. -/
def january : Civil ℕ where
  gmtime secs := (secs - newYear).toNat
  date _ := "20260101".toList
  clock secs := pad2 (secs / 3600) ++ ':' :: (pad2 (secs / 60 % 60) ++ ':' :: pad2 (secs % 60))
  strptime text :=
    match text.drop 8 with
    | [h, h', ':', m, m', ':', s, s', '.', a, b, c] =>
      if text.take 8 = "20260101".toList then do
        let hour ← digits.float [h, h']
        let min ← digits.float [m, m']
        let sec ← digits.float [s, s']
        let ms ← digits.float [a, b, c]
        return ((hour * 3600 + min * 60 + sec).toNat, (ms : ℚ) / 1000)
      else none
    | _ => none
  timestamp secs := newYear + secs

/-- A trade at 10:00:00.123456789, and one in the same millisecond. -/
def mornings : List HistoricalTrade :=
  [⟨11, 2, 1767261600123456789⟩, ⟨13, 1, 1767261600123900000⟩]

def morningHeader : MdHeader "X" where
  fields := header "W".toList 1 "EXCHANGE".toList "20260101-09:30:01".toList ++
    [("55".toList, "X".toList), ("262".toList, "INIT".toList), ("268".toList, "5".toList)]
  type := by decide +kernel
  sym := by decide +kernel
  noEntry := by decide +kernel
  plain := by decide +kernel

/-- The snapshot of the book, with the trades. -/
def morningMessage : FixMessage where
  body := morningHeader.fields ++
    mdGroups (january.format format.px format.size) seedBook.getOrders mornings
  ascii := by decide +kernel
  noSep := by decide +kernel

/-- A trade that arrives a second later. -/
def livePacket : ℚ × MdPacket :=
  (1767261601, ⟨1, .Trade, '2', fillFixed 8 "X", 12, 1, fillFixed 16 "3"⟩)

/-- The chart of the symbol after the snapshot and the packet. -/
def morningChart (offset : ℚ) (p : Parsed Price) : List TradePoint :=
  ([livePacket].foldl (fun s x => s.receive x.1 x.2)
    (processMdSnapshot (january.read offset) ⟨Subscriber.init ["X"], ∅⟩ p)).chart "X"

lemma january_inverse : ∀ t ∈ mornings, january.Inverse (tradeSecs t.ts) := by
  have hsecs : ∀ t ∈ mornings, tradeSecs t.ts = 1767261600 := by decide +kernel
  intro t ht
  rw [hsecs t ht]
  exact ⟨by decide +kernel, by decide +kernel, by decide +kernel, by decide +kernel⟩

end Sample

/-- The second trade is moved by a millisecond. -/
theorem trade_times_iff_sample :
    ∃ p, parseFields Sample.numbers Sample.morningMessage.raw = some p ∧
      TimesSurvive "X" Sample.mornings [Sample.livePacket] (Sample.morningChart 0 p) ∧
      Sample.morningChart 0 p =
        [⟨1767261600123 / 1000, 11⟩, ⟨1767261600124 / 1000, 13⟩, ⟨1767261601, 12⟩] := by
  have hread : ∀ o ∈ Sample.seedBook.getOrders,
      (Sample.january.format Sample.format.px Sample.format.size).ReadsBack Sample.numbers o.price
        o.leavesQty := by
    unfold TextFormat.ReadsBack
    decide +kernel
  have htrades : ∀ t ∈ Sample.mornings,
      (Sample.january.format Sample.format.px Sample.format.size).ReadsBack Sample.numbers t.price
        t.qty := by
    unfold TextFormat.ReadsBack
    decide +kernel
  have hbody : Sample.morningMessage.body = Sample.morningHeader.fields ++
      mdGroups (Sample.january.format Sample.format.px Sample.format.size)
        Sample.seedBook.getOrders Sample.mornings := rfl
  obtain ⟨p, hparse, hiff⟩ := trade_times_iff hread htrades hbody
    (fun t ht _ => Sample.january_inverse t ht) (by decide +kernel) 0
    (s := ⟨Subscriber.init ["X"], ∅⟩) (by decide +kernel) rfl [Sample.livePacket]
  have hchart : (parseFields Sample.numbers Sample.morningMessage.raw).map
      (Sample.morningChart 0) = some
        [⟨1767261600123 / 1000, 11⟩, ⟨1767261600124 / 1000, 13⟩, ⟨1767261601, 12⟩] := by
    decide +kernel
  rw [hparse] at hchart
  refine ⟨p, hparse, hiff.mpr (Or.inl ⟨rfl, ?_⟩), Option.some.inj hchart⟩
  decide +kernel

/-- An hour east of Greenwich the trades lie an hour too early. -/
theorem an_hour_early :
    ∃ p, parseFields Sample.numbers Sample.morningMessage.raw = some p ∧
      Sample.morningChart 3600 p =
        [⟨1767258000123 / 1000, 11⟩, ⟨1767258000124 / 1000, 13⟩, ⟨1767261601, 12⟩] ∧
      ¬ TimesSurvive "X" Sample.mornings [Sample.livePacket] (Sample.morningChart 3600 p) := by
  have hchart : (parseFields Sample.numbers Sample.morningMessage.raw).map
      (Sample.morningChart 3600) = some
        [⟨1767258000123 / 1000, 11⟩, ⟨1767258000124 / 1000, 13⟩, ⟨1767261601, 12⟩] := by
    decide +kernel
  obtain ⟨p, hparse, hp⟩ := Option.map_eq_some_iff.mp hchart
  refine ⟨p, hparse, hp, fun hs => ?_⟩
  have hplaced := hs.placed
  rw [hp] at hplaced
  have htrue : (shownTrades Sample.mornings).map HistoricalTrade.msTime
      = [1767261600123 / 1000, 1767261600123 / 1000] := by decide +kernel
  rw [htrue, List.map_cons, List.cons_append, Spaced.placed_cons] at hplaced
  obtain ⟨hfirst | ⟨_, hnone, -⟩, -⟩ := hplaced
  · norm_num at hfirst
  · cases hnone

end FixClient

end FixExchange
