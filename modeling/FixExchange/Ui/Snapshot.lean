/-
# Seeding from a market data snapshot

The gateway answers a market data request with one message for each book: `make_md_snapshot` of
`src/gateway/MessageFactory.h` writes an entry for each resting order, and the handler in
`FixGateway.cpp` appends the historical trades.  `_process_md_snapshot` of `ui/main.py` rebuilds
the book from the message.  How numbers are written is a parameter; what the seeding relies on
is that `float` and `int` read them back.
-/
import FixExchange.System.Feed
import FixExchange.Ui.FixClient

namespace FixExchange

namespace FixClient

/-! ## The message -/

/-- How a message shows prices, sizes, and the date and the time of a trade. -/
structure TextFormat where
  px : Price → Text
  size : ℤ → Text
  date : ℤ → Text
  time : ℤ → Text

/-- The text of a price and that of a size are read back as these numbers. -/
def TextFormat.ReadsBack (fmt : TextFormat) (py : PyFloat Price) (price : Price) (qty : ℤ) : Prop :=
  py.float (fmt.px price) = some price ∧ (py.float (fmt.size qty)).bind py.int = some qty

/-- `persistence::HistoricalTrade`. -/
structure HistoricalTrade where
  price : Price
  qty : ℤ
  ts : ℤ

/-- The entry of an order in `make_md_snapshot`. -/
def orderGroup (fmt : TextFormat) (order : Order) : List (Text × Text) :=
  [("269".toList, if order.side = '1' then ['0'] else ['1']), ("270".toList, fmt.px order.price),
    ("271".toList, fmt.size order.leavesQty), ("278".toList, order.exchangeId.toList)]

/-- The entry of a trade in the answer to a market data request. -/
def tradeGroup (fmt : TextFormat) (t : HistoricalTrade) : List (Text × Text) :=
  [("269".toList, ['2']), ("270".toList, fmt.px t.price), ("271".toList, fmt.size t.qty),
    ("272".toList, fmt.date t.ts), ("273".toList, fmt.time t.ts)]

/-- The entries of the answer to a market data request, for one book. -/
def mdGroups (fmt : TextFormat) (orders : List Order) (trades : List HistoricalTrade) :
    List (Text × Text) :=
  orders.flatMap (orderGroup fmt) ++ trades.flatMap (tradeGroup fmt)

/-- The fields before the entries: those of a snapshot of the symbol, without an entry. -/
structure MdHeader (symbol : String) where
  fields : List (Text × Text)
  type : value fields "35".toList = some "W".toList
  sym : value fields "55".toList = some symbol.toList
  noEntry : ∀ f ∈ fields, f.1 ≠ "269".toList
  plain : ∀ f ∈ fields, '=' ∉ f.1

/-! ## Reading the message -/

/-- A point of the chart. -/
structure TradePoint where
  time : ℚ
  value : Price
deriving DecidableEq, Repr

/-- What `_process_md_snapshot` has built after some entries. -/
structure Seed where
  bids : PriceLevels
  asks : PriceLevels
  orderState : StrMap OrderState
  trades : List TradePoint

/-- Set `order_state[eid]`, when there is an id. -/
def Seed.setState (f : Seed) (eid : Option Text) (st : OrderState) : Seed :=
  match eid with
  | none => f
  | some id =>
    if id = [] then f else { f with orderState := f.orderState.insert (String.ofList id) st }

/-- `levels[p] = levels.get(p, 0) + q`. -/
def addLevel (levels : PriceLevels) (p : Price) (q : ℤ) : PriceLevels :=
  levels.insert p ((levels.lookup p).getD 0 + q)

/-- Append a point of the chart: its time must be later than the one before. -/
def Seed.addTrade (f : Seed) (time : ℚ) (value : Price) : Seed :=
  let last := (f.trades.getLast?.map TradePoint.time).getD 0
  { f with trades := f.trades ++ [⟨max time (last + 1 / 1000), value⟩] }

/-- One round of the loop over the entries; `strptime` reads the time of a trade. -/
def seedEntry (strptime : Text → Option ℚ) (symbol : String) (f : Seed) (e : MdEntry Price) :
    Seed :=
  match e.price with
  | none => f
  | some p =>
    let q := e.qty.getD 0
    if q ≤ 0 then f
    else if e.type = ['0'] then
      { f with bids := addLevel f.bids p q }.setState e.eid ⟨p, q, symbol, '0'⟩
    else if e.type = ['1'] then
      { f with asks := addLevel f.asks p q }.setState e.eid ⟨p, q, symbol, '1'⟩
    else if e.type = ['2'] then
      let date := e.date.getD []
      let time := e.time.getD []
      if date ≠ [] ∧ time ≠ [] then
        match strptime (date ++ time) with
        | none => f
        | some t => f.addTrade t p
      else f
    else f

/-- What the server keeps of the market: the book of the subscriber and `trade_history`. -/
structure MarketState where
  subscriber : Subscriber
  tradeHistory : StrMap (List TradePoint)

/-- `_process_md_snapshot`. -/
def processMdSnapshot (strptime : Text → Option ℚ) (s : MarketState) (msg : Parsed Price) :
    MarketState :=
  let symbol := String.ofList ((msg.fields.lookup "55".toList).getD [])
  if symbol ∈ s.subscriber.orderBook then
    let f := (msg.mdEntries.getD []).foldl (seedEntry strptime symbol)
      ⟨∅, ∅, s.subscriber.orderState, []⟩
    { subscriber :=
        { orderBook := s.subscriber.orderBook.insert symbol ⟨f.bids, f.asks⟩
          orderState := f.orderState }
      tradeHistory :=
        if f.trades = [] then s.tradeHistory else s.tradeHistory.insert symbol f.trades }
  else s

/-- The entry that `parse_fields` makes of an order. -/
def orderEntry (o : Order) : MdEntry Price where
  type := if o.side = '1' then ['0'] else ['1']
  price := some o.price
  qty := some o.leavesQty
  eid := some o.exchangeId.toList

/-- The entry that `parse_fields` makes of a trade. -/
def tradeEntry (fmt : TextFormat) (t : HistoricalTrade) : MdEntry Price where
  type := ['2']
  price := some t.price
  qty := some t.qty
  date := some (fmt.date t.ts)
  time := some (fmt.time t.ts)

section Parse

variable {py : PyFloat Price} {fmt : TextFormat} {fields : List (Text × Text)}

/-- The fields before the first entry are skipped. -/
lemma foldlM_header (h : ∀ f ∈ fields, f.1 ≠ "269".toList) :
    fields.foldlM (mdStep py) ([], none) = some ([], none) := by
  induction fields with
  | nil => rfl
  | cons field fields ih =>
    have hstep : mdStep py ([], none) field = some ([], none) := by
      rw [mdStep, if_neg (h field (by simp))]
    rw [List.foldlM_cons, hstep]
    exact ih fun f hf => h f (by simp [hf])

/-- The entry of an order is read whole. -/
lemma foldlM_orderGroup {o : Order} (h : fmt.ReadsBack py o.price o.leavesQty)
    (state : MdScan Price) : (orderGroup fmt o).foldlM (mdStep py) state =
      some (state.1 ++ state.2.toList, some (orderEntry o)) := by
  simp [orderGroup, orderEntry, mdStep, h.1, h.2, -Option.map_bind]

lemma foldlM_tradeGroup {t : HistoricalTrade} (h : fmt.ReadsBack py t.price t.qty)
    (state : MdScan Price) : (tradeGroup fmt t).foldlM (mdStep py) state =
      some (state.1 ++ state.2.toList, some (tradeEntry fmt t)) := by
  simp [tradeGroup, tradeEntry, mdStep, h.1, h.2, -Option.map_bind]

/-- A list of groups, each of which is read as one entry. -/
lemma foldlM_groups {α : Type} {group : α → List (Text × Text)} {entry : α → MdEntry Price}
    {l : List α} (h : ∀ a ∈ l, ∀ state, (group a).foldlM (mdStep py) state =
      some (state.1 ++ state.2.toList, some (entry a))) (state : MdScan Price) :
    ∃ state', (l.flatMap group).foldlM (mdStep py) state = some state' ∧
      state'.1 ++ state'.2.toList = state.1 ++ state.2.toList ++ l.map entry := by
  induction l generalizing state with
  | nil => exact ⟨state, rfl, by simp⟩
  | cons a l ih =>
    obtain ⟨state', hfold, hstate⟩ :=
      ih (fun a' ha' => h a' (by simp [ha'])) (state.1 ++ state.2.toList, some (entry a))
    refine ⟨state', ?_, by rw [hstate]; simp⟩
    rw [List.flatMap_cons, List.foldlM_append, h a (by simp)]
    exact hfold

/-- The last field is not one of an entry. -/
lemma mdStep_trailer (state : MdScan Price) (val : Text) :
    mdStep py state ("10".toList, val) = some state := by
  obtain ⟨entries, _ | cur⟩ := state
  · simp [mdStep]
  · simp [mdStep]

lemma tag_of_mem_mdGroups {orders : List Order} {trades : List HistoricalTrade}
    {f : Text × Text} (h : f ∈ mdGroups fmt orders trades) :
    f.1 ∈ ["269".toList, "270".toList, "271".toList, "278".toList, "272".toList,
      "273".toList] := by
  rcases List.mem_append.mp h with h | h
  · obtain ⟨o, -, h⟩ := List.mem_flatMap.mp h
    simp only [orderGroup, List.mem_cons, List.not_mem_nil, or_false] at h
    rcases h with rfl | rfl | rfl | rfl <;> simp
  · obtain ⟨t, -, h⟩ := List.mem_flatMap.mp h
    simp only [tradeGroup, List.mem_cons, List.not_mem_nil, or_false] at h
    rcases h with rfl | rfl | rfl | rfl | rfl <;> simp

/-- The value of a tag that is not one of an entry is that of the header. -/
lemma value_allFields {symbol : String} {hdr : MdHeader symbol} {orders : List Order}
    {trades : List HistoricalTrade} {tag val : Text} (hval : value hdr.fields tag = some val)
    (htag : tag ∉ ["269".toList, "270".toList, "271".toList, "278".toList, "272".toList,
      "273".toList] ++ ["10".toList]) :
    value (allFields (hdr.fields ++ mdGroups fmt orders trades)) tag = some val := by
  have hgroups : value (mdGroups fmt orders trades) tag = none :=
    value_eq_none fun f hf heq =>
      htag (heq ▸ List.mem_append_left ["10".toList] (tag_of_mem_mdGroups hf))
  have htrailer : value [trailer (hdr.fields ++ mdGroups fmt orders trades)] tag = none :=
    value_eq_none fun f hf heq => htag (heq ▸ by
      rw [List.mem_singleton.mp hf]
      simp [trailer])
  rw [allFields, value_append, value_append, value_append, htrailer, hgroups, hval]
  rfl

/-- **A snapshot is read back**, with an entry for each order and each trade. -/
theorem parseFields_snapshot {symbol : String} {hdr : MdHeader symbol} {orders : List Order}
    {trades : List HistoricalTrade} {m : FixMessage}
    (horders : ∀ o ∈ orders, fmt.ReadsBack py o.price o.leavesQty)
    (htrades : ∀ t ∈ trades, fmt.ReadsBack py t.price t.qty)
    (hm : m.body = hdr.fields ++ mdGroups fmt orders trades) :
    ∃ p, parseFields py m.raw = some p ∧
      p.fields.lookup "55".toList = some symbol.toList ∧
      p.mdEntries = some (orders.map orderEntry ++ trades.map (tradeEntry fmt)) := by
  have hplain : ∀ f ∈ m.body, '=' ∉ f.1 := by
    intro f hf
    rw [hm] at hf
    rcases List.mem_append.mp hf with hf | hf
    · exact hdr.plain f hf
    · have htags : ∀ tag ∈ ["269".toList, "270".toList, "271".toList, "278".toList,
          "272".toList, "273".toList], '=' ∉ tag := by decide
      exact htags f.1 (tag_of_mem_mdGroups hf)
  have hpairs : pairs m.raw = allFields (hdr.fields ++ mdGroups fmt orders trades) := by
    rw [pairs_raw_of_plain m hplain, hm]
  have hlookup : ∀ tag, ((pairs m.raw).foldl (fun dict field => dict.insert field.1 field.2)
      (∅ : AList fun _ : Text => Text)).lookup tag = value (pairs m.raw) tag := by
    intro tag
    rw [lookup_foldl_insert, AList.lookup_empty, Option.or_none]
  have htype : value (pairs m.raw) "35".toList = some "W".toList := by
    rw [hpairs]
    exact value_allFields hdr.type (by decide)
  have hsym : value (pairs m.raw) "55".toList = some symbol.toList := by
    rw [hpairs]
    exact value_allFields hdr.sym (by decide)
  obtain ⟨state, hfold, hstate⟩ := foldlM_groups
    (fun o ho => foldlM_orderGroup (horders o ho)) ([], none)
  obtain ⟨state', hfold', hstate'⟩ := foldlM_groups
    (fun t ht => foldlM_tradeGroup (htrades t ht)) state
  have hhead : ∀ f ∈ prefixFields (hdr.fields ++ mdGroups fmt orders trades) ++ hdr.fields,
      f.1 ≠ "269".toList := by
    intro f hf
    rcases List.mem_append.mp hf with hf | hf
    · simp only [prefixFields, List.mem_cons, List.not_mem_nil, or_false] at hf
      rcases hf with rfl | rfl
      · decide
      · show "9".toList ≠ "269".toList
        decide
    · exact hdr.noEntry f hf
  have hentries : mdEntries py (pairs m.raw) =
      some (orders.map orderEntry ++ trades.map (tradeEntry fmt)) := by
    have hsplit : allFields (hdr.fields ++ mdGroups fmt orders trades) =
        (prefixFields (hdr.fields ++ mdGroups fmt orders trades) ++ hdr.fields) ++
          (orders.flatMap (orderGroup fmt) ++ (trades.flatMap (tradeGroup fmt) ++
            [trailer (hdr.fields ++ mdGroups fmt orders trades)])) := by
      simp [allFields, mdGroups]
    rw [hpairs, hsplit, mdEntries]
    simp only [List.foldlM_append, foldlM_header hhead, hfold, hfold', List.foldlM_cons,
      List.foldlM_nil, trailer, mdStep_trailer, Option.bind_eq_bind, Option.bind_some,
      Option.pure_def, Option.map_some]
    rw [hstate', hstate]
    simp
  refine ⟨⟨(pairs m.raw).foldl (fun dict field => dict.insert field.1 field.2) ∅,
    some (orders.map orderEntry ++ trades.map (tradeEntry fmt))⟩, ?_, (hlookup _).trans hsym, rfl⟩
  rw [parseFields]
  simp only [hlookup, htype, if_pos, hentries, Option.map_some]

end Parse

/-! ## The book that is seeded -/

/-- The open quantity of some orders at a price, on the side of a packet. -/
def openQtyAt (l : List Order) (side : Char) (price : Price) : ℤ :=
  (l.map fun o =>
    if MarketDataPublisher.packetSide o.side = side ∧ o.price = price then o.leavesQty else 0).sum

/-- The levels of some orders. -/
def ShowsLevels (levels : PriceLevels) (l : List Order) (side : Char) : Prop :=
  ∀ price, levels.lookup price =
    if openQtyAt l side price ≤ 0 then none else some (openQtyAt l side price)

/-- What has been built after the entries of the orders `l`. -/
structure Seed.Built (symbol : String) (states : StrMap OrderState) (l : List Order) (f : Seed) :
    Prop where
  bids : ShowsLevels f.bids l '0'
  asks : ShowsLevels f.asks l '1'
  orders : ∀ o ∈ l, f.orderState.lookup o.exchangeId =
    some ⟨o.price, o.leavesQty, symbol, MarketDataPublisher.packetSide o.side⟩
  others : ∀ id, (∀ o ∈ l, o.exchangeId ≠ id) → f.orderState.lookup id = states.lookup id

section Seeding

open MarketDataPublisher (packetSide)

variable (strptime : Text → Option ℚ) (symbol : String) {l : List Order} {o : Order}
  {levels : PriceLevels} {side : Char}

lemma openQtyAt_snoc (l : List Order) (o : Order) (side : Char) (price : Price) :
    openQtyAt (l ++ [o]) side price =
      openQtyAt l side price +
        if packetSide o.side = side ∧ o.price = price then o.leavesQty else 0 := by
  simp [openQtyAt]

lemma openQtyAt_nonneg (hpos : ∀ o ∈ l, 0 < o.leavesQty) (side : Char) (price : Price) :
    0 ≤ openQtyAt l side price := by
  refine List.sum_nonneg fun x hx => ?_
  obtain ⟨o, ho, rfl⟩ := List.mem_map.mp hx
  have h := hpos o ho
  split_ifs <;> omega

/-- An order of the other side. -/
lemma ShowsLevels.other (h : ShowsLevels levels l side) (hside : packetSide o.side ≠ side) :
    ShowsLevels levels (l ++ [o]) side := by
  intro price
  have hsnoc := openQtyAt_snoc l o side price
  rw [if_neg fun hand => hside hand.1, add_zero] at hsnoc
  rw [hsnoc]
  exact h price

lemma ShowsLevels.add (h : ShowsLevels levels l side) (hside : packetSide o.side = side)
    (hpos : ∀ o ∈ l, 0 < o.leavesQty) (ho : 0 < o.leavesQty) :
    ShowsLevels (addLevel levels o.price o.leavesQty) (l ++ [o]) side := by
  intro price
  have hsnoc := openQtyAt_snoc l o side price
  rw [addLevel]
  by_cases hprice : o.price = price
  · subst hprice
    have hnonneg := openQtyAt_nonneg hpos side o.price
    have hmore : ¬ openQtyAt l side o.price + o.leavesQty ≤ 0 := by omega
    rw [if_pos ⟨hside, rfl⟩] at hsnoc
    rw [AList.lookup_insert, h, hsnoc, if_neg hmore]
    split_ifs with hzero
    · have hempty : openQtyAt l side o.price = 0 := le_antisymm hzero hnonneg
      rw [hempty]
      rfl
    · rfl
  · rw [if_neg fun hand => hprice hand.2, add_zero] at hsnoc
    rw [AList.lookup_insert_ne (Ne.symm hprice), hsnoc]
    exact h price

/-- The entry of an order with an id and an open quantity. -/
lemma seedEntry_order (f : Seed) (ho : 0 < o.leavesQty) (hid : o.exchangeId ≠ "") :
    seedEntry strptime symbol f (orderEntry o) =
      { f with
        bids := if o.side = '1' then addLevel f.bids o.price o.leavesQty else f.bids
        asks := if o.side = '1' then f.asks else addLevel f.asks o.price o.leavesQty
        orderState := f.orderState.insert o.exchangeId
          ⟨o.price, o.leavesQty, symbol, packetSide o.side⟩ } := by
  have hne : o.exchangeId.toList ≠ [] := by simpa using hid
  by_cases hside : o.side = '1'
  · simp [seedEntry, orderEntry, Seed.setState, packetSide, hside, not_le.mpr ho, hid]
  · simp [seedEntry, orderEntry, Seed.setState, packetSide, hside, not_le.mpr ho, hid]

lemma Seed.Built.snoc {states : StrMap OrderState} {f : Seed} (h : f.Built symbol states l)
    (hpos : ∀ o ∈ l, 0 < o.leavesQty) (ho : 0 < o.leavesQty) (hid : o.exchangeId ≠ "")
    (hnew : ∀ o' ∈ l, o'.exchangeId ≠ o.exchangeId) :
    (seedEntry strptime symbol f (orderEntry o)).Built symbol states (l ++ [o]) := by
  rw [seedEntry_order strptime symbol f ho hid]
  refine ⟨?_, ?_, fun o' ho' => ?_, fun id hother => ?_⟩
  · by_cases hside : o.side = '1'
    · simpa only [if_pos hside] using h.bids.add (by simp [packetSide, hside]) hpos ho
    · simpa only [if_neg hside] using h.bids.other (by simp [packetSide, hside])
  · by_cases hside : o.side = '1'
    · simpa only [if_pos hside] using h.asks.other (by simp [packetSide, hside])
    · simpa only [if_neg hside] using h.asks.add (by simp [packetSide, hside]) hpos ho
  · rcases List.mem_append.mp ho' with ho' | ho'
    · rw [AList.lookup_insert_ne (hnew o' ho')]
      exact h.orders o' ho'
    · rw [List.mem_singleton.mp ho', AList.lookup_insert]
  · rw [AList.lookup_insert_ne (Ne.symm (hother o (by simp)))]
    exact h.others id fun o' ho' => hother o' (by simp [ho'])

/-- The entries of orders with ids of their own. -/
lemma built_of_orders (states : StrMap OrderState) (hpos : ∀ o ∈ l, 0 < o.leavesQty)
    (hids : ∀ o ∈ l, o.exchangeId ≠ "") (hnodup : (l.map Order.exchangeId).Nodup) :
    ((l.map orderEntry).foldl (seedEntry strptime symbol) ⟨∅, ∅, states, []⟩).Built symbol
      states l := by
  induction l using List.reverseRecOn with
  | nil => exact ⟨fun _ => rfl, fun _ => rfl, by simp, fun _ _ => rfl⟩
  | append_singleton l o ih =>
    rw [List.map_append, List.nodup_append] at hnodup
    rw [List.map_append, List.foldl_append]
    refine (ih (fun o' ho' => hpos o' (by simp [ho'])) (fun o' ho' => hids o' (by simp [ho']))
      hnodup.1).snoc strptime symbol (fun o' ho' => hpos o' (by simp [ho'])) (hpos o (by simp))
      (hids o (by simp)) fun o' ho' => ?_
    exact hnodup.2.2 _ (List.mem_map_of_mem ho') _ (by simp)

/-- The entry of a trade leaves the book alone. -/
lemma seedEntry_trade (fmt : TextFormat) (f : Seed) (t : HistoricalTrade) :
    ∃ points, seedEntry strptime symbol f (tradeEntry fmt t) = { f with trades := points } := by
  by_cases hqty : t.qty ≤ 0
  · exact ⟨f.trades, by simp [seedEntry, tradeEntry, hqty]⟩
  · by_cases htime : fmt.date t.ts ≠ [] ∧ fmt.time t.ts ≠ []
    · cases hread : strptime (fmt.date t.ts ++ fmt.time t.ts) with
      | none => exact ⟨f.trades, by simp [seedEntry, tradeEntry, hqty, htime, hread]⟩
      | some time => exact ⟨(f.addTrade time t.price).trades, by
          simp [seedEntry, tradeEntry, hqty, htime, hread, Seed.addTrade]⟩
    · exact ⟨f.trades, by simp [seedEntry, tradeEntry, hqty, htime]⟩

lemma built_of_trades {states : StrMap OrderState} (fmt : TextFormat) {f : Seed}
    (h : f.Built symbol states l) (trades : List HistoricalTrade) :
    ((trades.map (tradeEntry fmt)).foldl (seedEntry strptime symbol) f).Built symbol states l := by
  induction trades generalizing f with
  | nil => exact h
  | cons t trades ih =>
    obtain ⟨points, hseed⟩ := seedEntry_trade strptime symbol fmt f t
    rw [List.map_cons, List.foldl_cons, hseed]
    exact ih ⟨h.bids, h.asks, h.orders, h.others⟩

/-- The open quantity at a price is the total of the level, on the buy side. -/
lemma openQtyAt_bids {b : OrderBook} (h : b.Wf) (price : Price) :
    openQtyAt b.getOrders '0' price = OrderBook.levelTotal (b.bids.findD price []) := by
  have hasks : openQtyAt (b.asks.flat.map Node.order) '0' price = 0 := by
    refine List.sum_eq_zero fun x hx => ?_
    rw [List.map_map] at hx
    obtain ⟨n, hn, rfl⟩ := List.mem_map.mp hx
    simp [packetSide, h.asks_side n hn]
  have hsplit : openQtyAt b.getOrders '0' price =
      openQtyAt (b.bids.flat.map Node.order) '0' price +
        openQtyAt (b.asks.flat.map Node.order) '0' price := by
    simp [openQtyAt, OrderBook.getOrders, OrderBook.nodes]
  rw [hsplit, hasks, add_zero, OrderBook.levelTotal_findD h.bids_leveled, openQtyAt, List.map_map]
  refine congrArg List.sum (List.map_congr_left fun n hn => ?_)
  simp [packetSide, h.bids_side n hn]

lemma openQtyAt_asks {b : OrderBook} (h : b.Wf) (price : Price) :
    openQtyAt b.getOrders '1' price = OrderBook.levelTotal (b.asks.findD price []) := by
  have hbids : openQtyAt (b.bids.flat.map Node.order) '1' price = 0 := by
    refine List.sum_eq_zero fun x hx => ?_
    rw [List.map_map] at hx
    obtain ⟨n, hn, rfl⟩ := List.mem_map.mp hx
    simp [packetSide, h.bids_side n hn]
  have hsplit : openQtyAt b.getOrders '1' price =
      openQtyAt (b.bids.flat.map Node.order) '1' price +
        openQtyAt (b.asks.flat.map Node.order) '1' price := by
    simp [openQtyAt, OrderBook.getOrders, OrderBook.nodes]
  rw [hsplit, hbids, zero_add, OrderBook.levelTotal_findD h.asks_leveled, openQtyAt, List.map_map]
  refine congrArg List.sum (List.map_congr_left fun n hn => ?_)
  simp [packetSide, h.asks_side n hn]

end Seeding

/-- The subscriber has the book of the symbol: the levels, and the orders that rest.  It keeps
what it knows of other orders. -/
structure Seeded (b : OrderBook) (symbol : String) (s s' : Subscriber) : Prop where
  bids : ∀ price qty, (s'.bookOf symbol).bids.lookup price = some qty ↔ ⟨price, qty⟩ ∈ b.getBids
  asks : ∀ price qty, (s'.bookOf symbol).asks.lookup price = some qty ↔ ⟨price, qty⟩ ∈ b.getAsks
  orders : ∀ o ∈ b.getOrders, s'.orderState.lookup o.exchangeId =
    some ⟨o.price, o.leavesQty, symbol, MarketDataPublisher.packetSide o.side⟩
  others : ∀ id, (∀ o ∈ b.getOrders, o.exchangeId ≠ id) →
    s'.orderState.lookup id = s.orderState.lookup id

/-- The subscriber has the total of each level, and the orders that rest. -/
structure SeededExact (b : OrderBook) (symbol : String) (s s' : Subscriber) : Prop where
  bids : ∀ price qty, (s'.bookOf symbol).bids.lookup price = some qty ↔
    0 < qty ∧ OrderBook.levelTotal (b.bids.findD price []) = qty
  asks : ∀ price qty, (s'.bookOf symbol).asks.lookup price = some qty ↔
    0 < qty ∧ OrderBook.levelTotal (b.asks.findD price []) = qty
  orders : ∀ o ∈ b.getOrders, s'.orderState.lookup o.exchangeId =
    some ⟨o.price, o.leavesQty, symbol, MarketDataPublisher.packetSide o.side⟩
  others : ∀ id, (∀ o ∈ b.getOrders, o.exchangeId ≠ id) →
    s'.orderState.lookup id = s.orderState.lookup id

/-- The engine returns the levels that the subscriber has when their totals are `int`s. -/
lemma SeededExact.seeded_iff {b : OrderBook} {symbol : String} {s s' : Subscriber}
    (h : SeededExact b symbol s s') (hb : b.Wf) (hpos : ∀ n ∈ b.nodes, 0 < n.order.leavesQty) :
    Seeded b symbol s s' ↔
      OrderBook.LevelTotalsFit b.bids ∧ OrderBook.LevelTotalsFit b.asks := by
  obtain ⟨hbids, hasks⟩ := OrderBook.openSides hpos
  rw [← hbids.levelsExact_iff hb.bids_leveled, ← hasks.levelsExact_iff hb.asks_leveled]
  constructor
  · intro hseeded
    exact ⟨fun price qty => (hseeded.bids price qty).symm.trans (h.bids price qty),
      fun price qty => (hseeded.asks price qty).symm.trans (h.asks price qty)⟩
  · rintro ⟨hexact, hexact'⟩
    exact ⟨fun price qty => (h.bids price qty).trans (hexact price qty).symm,
      fun price qty => (h.asks price qty).trans (hexact' price qty).symm, h.orders, h.others⟩

/-- Processing a message with the entries of a book and any trades changes the book of its symbol
and the orders. -/
lemma exists_processed {py : PyFloat Price} {fmt : TextFormat} (strptime : Text → Option ℚ)
    {b : OrderBook} (hb : b.Wf) (hk : b.Keyed) (hpos : ∀ o ∈ b.getOrders, 0 < o.leavesQty)
    (hids : ∀ o ∈ b.getOrders, o.exchangeId ≠ "") {symbol : String} (hdr : MdHeader symbol)
    {trades : List HistoricalTrade}
    (horders : ∀ o ∈ b.getOrders, fmt.ReadsBack py o.price o.leavesQty)
    (htrades : ∀ t ∈ trades, fmt.ReadsBack py t.price t.qty) {m : FixMessage}
    (hm : m.body = hdr.fields ++ mdGroups fmt b.getOrders trades) (s : MarketState)
    (hsym : symbol ∈ s.subscriber.orderBook) :
    ∃ p, parseFields py m.raw = some p ∧
      SeededExact b symbol s.subscriber (processMdSnapshot strptime s p).subscriber ∧
      ∃ book, (processMdSnapshot strptime s p).subscriber.orderBook =
        s.subscriber.orderBook.insert symbol book := by
  obtain ⟨p, hparse, hsymbol, hentries⟩ := parseFields_snapshot horders htrades hm
  refine ⟨p, hparse, ?_⟩
  have hbuilt := built_of_trades strptime symbol fmt
    (built_of_orders strptime symbol s.subscriber.orderState hpos hids hk.nodup) trades
  rw [← List.foldl_append] at hbuilt
  have hprocess : (processMdSnapshot strptime s p).subscriber =
      let f := (b.getOrders.map orderEntry ++ trades.map (tradeEntry fmt)).foldl
        (seedEntry strptime symbol) ⟨∅, ∅, s.subscriber.orderState, []⟩
      ⟨s.subscriber.orderBook.insert symbol ⟨f.bids, f.asks⟩, f.orderState⟩ := by
    simp only [processMdSnapshot, hsymbol, hentries, Option.getD_some, String.ofList_toList,
      if_pos hsym]
  revert hbuilt hprocess
  generalize (b.getOrders.map orderEntry ++ trades.map (tradeEntry fmt)).foldl
    (seedEntry strptime symbol) ⟨∅, ∅, s.subscriber.orderState, []⟩ = f
  intro hbuilt hprocess
  rw [hprocess]
  refine ⟨⟨fun price qty => ?_, fun price qty => ?_, hbuilt.orders, hbuilt.others⟩, _, rfl⟩
  · rw [Subscriber.bookOf, AList.lookup_insert, Option.getD_some, hbuilt.bids,
      openQtyAt_bids hb, System.lookup_of_total]
  · rw [Subscriber.bookOf, AList.lookup_insert, Option.getD_some, hbuilt.asks,
      openQtyAt_asks hb, System.lookup_of_total]

/-- **When a snapshot seeds the book.**  A message with the entries of a book and any trades is read
back, and processing it gives the subscriber the book, for a symbol that it has asked for, exactly
when the total of each level is an `int`. -/
theorem snapshot_seeds_iff {py : PyFloat Price} {fmt : TextFormat}
    (strptime : Text → Option ℚ) {b : OrderBook} (hb : b.Wf) (hk : b.Keyed)
    (hpos : ∀ o ∈ b.getOrders, 0 < o.leavesQty)
    (hids : ∀ o ∈ b.getOrders, o.exchangeId ≠ "") (hdr : MdHeader b.symbol)
    {trades : List HistoricalTrade}
    (horders : ∀ o ∈ b.getOrders, fmt.ReadsBack py o.price o.leavesQty)
    (htrades : ∀ t ∈ trades, fmt.ReadsBack py t.price t.qty) {m : FixMessage}
    (hm : m.body = hdr.fields ++ mdGroups fmt b.getOrders trades) (s : MarketState)
    (hsym : b.symbol ∈ s.subscriber.orderBook) :
    ∃ p, parseFields py m.raw = some p ∧
      (Seeded b b.symbol s.subscriber (processMdSnapshot strptime s p).subscriber ↔
        OrderBook.LevelTotalsFit b.bids ∧ OrderBook.LevelTotalsFit b.asks) := by
  obtain ⟨p, hparse, hexact, -⟩ :=
    exists_processed strptime hb hk hpos hids hdr horders htrades hm s hsym
  exact ⟨p, hparse, hexact.seeded_iff hb fun n hn => hpos _ (List.mem_map_of_mem hn)⟩

namespace Sample

/-- The numbers that are written with digits only, as prices. -/
def numbers : PyFloat Price where
  float text := (digits.float text).map fun n => (n : Price)
  int x := if x.den = 1 then some x.num else none

/-- Whole numbers, and a fixed time. -/
def format : TextFormat where
  px price := str price.num.toNat
  size qty := str qty.toNat
  date _ := "20260101".toList
  time _ := "09:30:00.000".toList

/-- Two buy orders at a price, and a sell order. -/
def seedOps : List BookOp :=
  [.restore (OrderBook.sampleOrder "1" '1' '2' '0' 10 5),
    .restore (OrderBook.sampleOrder "2" '1' '2' '0' 10 3),
    .restore (OrderBook.sampleOrder "3" '2' '2' '0' 12 4)]

def seedBook : OrderBook := ((OrderBook.init "X").run seedOps).1

def seedHeader : MdHeader "X" where
  fields := header "W".toList 1 "EXCHANGE".toList "20260101-09:30:01".toList ++
    [("55".toList, "X".toList), ("262".toList, "INIT".toList), ("268".toList, "4".toList)]
  type := by decide +kernel
  sym := by decide +kernel
  noEntry := by decide +kernel
  plain := by decide +kernel

/-- The snapshot of the book, with a trade. -/
def seedMessage : FixMessage where
  body := seedHeader.fields ++ mdGroups format seedBook.getOrders [⟨11, 2, 0⟩]
  ascii := by decide +kernel
  noSep := by decide +kernel

/-- Two buy orders at a price that add up to more than an `int`. -/
def largeOps : List BookOp :=
  [.restore (OrderBook.sampleOrder "1" '1' '2' '0' 10 2147483647),
    .restore (OrderBook.sampleOrder "2" '1' '2' '0' 10 2147483647)]

def largeBook : OrderBook := ((OrderBook.init "X").run largeOps).1

/-- The snapshot of that book. -/
def largeMessage : FixMessage where
  body := seedHeader.fields ++ mdGroups format largeBook.getOrders []
  ascii := by decide +kernel
  noSep := by decide +kernel

end Sample

theorem snapshot_seeds_iff_sample :
    ∃ p, parseFields Sample.numbers Sample.seedMessage.raw = some p ∧
      Seeded Sample.seedBook "X" (Subscriber.init ["X"])
        (processMdSnapshot (fun _ => some 0) ⟨Subscriber.init ["X"], ∅⟩ p).subscriber := by
  have hinv : Sample.seedBook.Inv := (OrderBook.inv_init "X").run (by decide)
  have hread : ∀ o ∈ Sample.seedBook.getOrders,
      Sample.format.ReadsBack Sample.numbers o.price o.leavesQty ∧ 0 < o.leavesQty ∧
        o.exchangeId ≠ "" := by
    unfold TextFormat.ReadsBack
    decide +kernel
  have htrade : ∀ t ∈ ([⟨11, 2, 0⟩] : List HistoricalTrade),
      Sample.format.ReadsBack Sample.numbers t.price t.qty := by
    unfold TextFormat.ReadsBack
    decide +kernel
  obtain ⟨p, hparse, hiff⟩ := snapshot_seeds_iff (fun _ => some 0) hinv.wf hinv.keyed
    (fun o ho => (hread o ho).2.1) (fun o ho => (hread o ho).2.2) Sample.seedHeader
    (fun o ho => (hread o ho).1) htrade (m := Sample.seedMessage) rfl
    ⟨Subscriber.init ["X"], ∅⟩ (by decide +kernel)
  exact ⟨p, hparse, hiff.mpr (by decide +kernel)⟩

/-- The subscriber has the total of both orders, and the engine returns no level. -/
theorem large_level_not_returned :
    ∃ p, parseFields Sample.numbers Sample.largeMessage.raw = some p ∧
      let s := (processMdSnapshot (fun _ => some 0) ⟨Subscriber.init ["X"], ∅⟩ p).subscriber
      (s.bookOf "X").bids.lookup 10 = some 4294967294 ∧ Sample.largeBook.getBids = [] ∧
        ¬ Seeded Sample.largeBook "X" (Subscriber.init ["X"]) s := by
  have hsome : ((parseFields Sample.numbers Sample.largeMessage.raw).any fun p => decide (
      ((processMdSnapshot (fun _ => some 0) ⟨Subscriber.init ["X"], ∅⟩ p).subscriber.bookOf
        "X").bids.lookup 10 = some 4294967294)) = true := by decide +kernel
  obtain ⟨p, hp, hlevel⟩ := Option.any_eq_true _ _ |>.mp hsome
  have hlevel := of_decide_eq_true hlevel
  have hnone : Sample.largeBook.getBids = [] := by decide +kernel
  refine ⟨p, hp, hlevel, hnone, fun hseeded => ?_⟩
  have hmem := (hseeded.bids 10 4294967294).mp hlevel
  rw [hnone] at hmem
  exact absurd hmem List.not_mem_nil

end FixClient

end FixExchange
