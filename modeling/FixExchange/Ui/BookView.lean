/-
# The book on the screen

`renderBook` of `ui/static/index.html`: the ten best levels of each side of the selected symbol, the
asks with the worst one on top, and the spread between the best ones.

The whole way from the engine to the screen: in a run in which neither the server nor the page
misses anything, the screen shows the first levels that `getBids` and `getAsks` return, in their
order, and the spread of a book that is not crossed (`screen_shows_market`).  The page computes with
`double`s.
-/
import FixExchange.Lib.Binary64
import FixExchange.System.Crash
import FixExchange.Ui.Screen

namespace FixExchange

/-- A level on the screen, with the width of its bar. -/
structure BookLine where
  price : Price
  qty : ℤ
  width : ℤ
deriving DecidableEq, Repr

/-- What `renderBook` shows of a symbol, from top to bottom. -/
structure BookView where
  asks : List BookLine
  spread : Option Price
  bids : List BookLine
deriving DecidableEq, Repr

/-- `Math.max(1, ...)` of the quantities. -/
def maxQty (levels : List (Price × ℤ)) : ℤ := levels.foldl (fun m l => max m l.2) 1

/-- A level with its bar, `Math.round((q / maxQty) * 76)` pixels wide. -/
def bookLine (maxQty : ℤ) (l : Price × ℤ) : BookLine :=
  ⟨l.1, l.2, ⌊Binary64.nearest (Binary64.nearest ((l.2 : ℚ) / maxQty) * 76) + 1 / 2⌋⟩

/-- `(bestBid && bestAsk) ? (bestAsk - bestBid)...`: a price of zero counts as none. -/
def spread (bestBid bestAsk : Option (Price × ℤ)) : Option Price :=
  match bestBid, bestAsk with
  | some bid, some ask =>
    if bid.1 = 0 ∨ ask.1 = 0 then none else some (Binary64.nearest (ask.1 - bid.1))
  | _, _ => none

/-- The screen with the sorted levels of both sides. -/
def bookView (sortedBids sortedAsks : List (Price × ℤ)) : BookView where
  asks := (sortedAsks.map (bookLine (maxQty (sortedBids ++ sortedAsks)))).reverse
  spread := spread sortedBids.head? sortedAsks.head?
  bids := sortedBids.map (bookLine (maxQty (sortedBids ++ sortedAsks)))

/-- `renderBook` with the selected symbol; `none` when there is no data. -/
def Browser.renderBook (b : Browser) (activeSym : String) : Option BookView :=
  if activeSym = "" ∨ activeSym ∉ b.book then none
  else some (bookView (b.sortedBids activeSym) (b.sortedAsks activeSym))

/-- The levels of a side that the engine returns for a symbol. -/
def MatchingEngine.levelsOf (e : MatchingEngine) (symbol : String) (side : Char) :
    List (Price × ℤ) :=
  (e.books.lookup symbol).elim [] fun b =>
    (if side = '0' then b.getBids else b.getAsks).map fun l => (l.price, l.qty)

/-! ## Bars -/

section Bars

variable {levels : List (Price × ℤ)} {l : Price × ℤ}

lemma le_foldl_max (m : ℤ) (levels : List (Price × ℤ)) :
    m ≤ levels.foldl (fun m l => max m l.2) m ∧
      ∀ l ∈ levels, l.2 ≤ levels.foldl (fun m l => max m l.2) m := by
  induction levels generalizing m with
  | nil => exact ⟨le_refl m, fun l hl => absurd hl List.not_mem_nil⟩
  | cons x levels ih =>
    obtain ⟨hle, hall⟩ := ih (max m x.2)
    refine ⟨(le_max_left _ _).trans hle, fun l hl => ?_⟩
    rcases List.mem_cons.mp hl with rfl | hl
    · exact (le_max_right _ _).trans hle
    · exact hall l hl

/-- **A bar fits** in its column. -/
lemma bookLine_width (hl : l ∈ levels) (hpos : 0 < l.2) :
    0 ≤ (bookLine (maxQty levels) l).width ∧ (bookLine (maxQty levels) l).width ≤ 76 := by
  obtain ⟨hone, hall⟩ := le_foldl_max 1 levels
  have hmax : (0 : ℚ) < maxQty levels := by exact_mod_cast hone
  have hle : (l.2 : ℚ) ≤ maxQty levels := by exact_mod_cast hall l hl
  have hqty : (0 : ℚ) < l.2 := by exact_mod_cast hpos
  -- the quotient and the product are rounded, but not beyond 1 and 76
  have hshare : Binary64.nearest ((l.2 : ℚ) / maxQty levels) ≤ 1 :=
    (Binary64.nearest_monotone ((div_le_one hmax).mpr hle)).trans_eq
      (by exact_mod_cast Binary64.nearest_natCast (n := 1) (by decide))
  have hshare' : 0 ≤ Binary64.nearest ((l.2 : ℚ) / maxQty levels) :=
    Binary64.nearest_nonneg (div_pos hqty hmax).le
  have hwidth : Binary64.nearest (Binary64.nearest ((l.2 : ℚ) / maxQty levels) * 76) ≤ 76 :=
    (Binary64.nearest_monotone (mul_le_of_le_one_left (by norm_num) hshare)).trans_eq
      (by exact_mod_cast Binary64.nearest_natCast (n := 76) (by decide))
  have hwidth' : 0 ≤ Binary64.nearest (Binary64.nearest ((l.2 : ℚ) / maxQty levels) * 76) :=
    Binary64.nearest_nonneg (by linarith)
  constructor
  · exact Int.floor_nonneg.mpr (by linarith)
  · refine Int.lt_add_one_iff.mp (Int.floor_lt.mpr ?_)
    push_cast
    linarith

/-- The lines on the screen, when something is left at each level. -/
lemma bookView_fits {bids asks : List (Price × ℤ)} (hbids : ∀ l ∈ bids, 0 < l.2)
    (hasks : ∀ l ∈ asks, 0 < l.2) :
    ∀ line ∈ (bookView bids asks).asks ++ (bookView bids asks).bids,
      0 < line.qty ∧ 0 ≤ line.width ∧ line.width ≤ 76 := by
  intro line hline
  rw [bookView, List.mem_append, List.mem_reverse, List.mem_map, List.mem_map] at hline
  rcases hline with ⟨l, hl, rfl⟩ | ⟨l, hl, rfl⟩
  · exact ⟨hasks l hl, bookLine_width (List.mem_append_right _ hl) (hasks l hl)⟩
  · exact ⟨hbids l hl, bookLine_width (List.mem_append_left _ hl) (hbids l hl)⟩

end Bars

/-! ## The levels of the engine -/

namespace OrderBook

variable {r : Price → Price → Prop} {side : BookSide r}

/-- The levels of a side come in the order of the side. -/
lemma levels_sorted (side : BookSide r) :
    ((levels side).map fun l => (l.price, l.qty)).Pairwise fun x y => r x.1 y.1 := by
  rw [List.pairwise_map, levels]
  refine List.Pairwise.filterMap _ (fun kv kv' hlt l hl l' hl' => ?_) side.sorted
  split_ifs at hl hl'
  obtain rfl := Option.some.inj hl
  obtain rfl := Option.some.inj hl'
  exact hlt

/-- A level has something left in it, of an order with its price. -/
lemma exists_order_of_mem_levels [IsStrictTotalOrder Price r] (h : side.Leveled Node.price)
    {l : BookLevel} (hl : l ∈ levels side) :
    0 < l.qty ∧ ∃ n ∈ side.flat, n.order.price = l.price := by
  obtain ⟨hpos, htotal⟩ := mem_levels.mp hl
  refine ⟨hpos, ?_⟩
  by_contra hnone
  have hfilter : side.findD l.price [] = [] := by
    rw [h.findD_eq_filter, List.filter_eq_nil_iff]
    intro n hn heq
    exact hnone ⟨n, hn, of_decide_eq_true heq⟩
  rw [hfilter] at htotal
  exact absurd htotal (by simp [levelAddends, WrapSum.wrapSum, hpos.ne])

end OrderBook

namespace MatchingEngine

variable {e : MatchingEngine} {symbol : String}

lemma levelsOf_sorted (e : MatchingEngine) (symbol : String) {side : Char}
    (hside : side = '0' ∨ side = '1') :
    ((e.levelsOf symbol side).Pairwise fun x y => Ahead side x.1 y.1) ∧
      ((e.levelsOf symbol side).map Prod.fst).Nodup := by
  rw [levelsOf]
  cases e.books.lookup symbol with
  | none => exact ⟨List.Pairwise.nil, List.nodup_nil⟩
  | some b =>
    rcases hside with rfl | rfl
    · have hsorted := OrderBook.levels_sorted b.bids
      exact ⟨hsorted.imp le_of_lt, (List.pairwise_map.mpr hsorted).imp ne_of_gt⟩
    · have hsorted := OrderBook.levels_sorted b.asks
      exact ⟨hsorted.imp le_of_lt, (List.pairwise_map.mpr hsorted).imp ne_of_lt⟩

/-- A level has something left in it, of an order with its price on its side of the book. -/
lemma exists_order_of_mem_levelsOf {known : String → Prop} (h : System.BooksSound e.books known)
    {side : Char} {l : Price × ℤ} (hl : l ∈ e.levelsOf symbol side) :
    0 < l.2 ∧ ∃ b, e.books.lookup symbol = some b ∧
      ∃ n ∈ if side = '0' then b.bids.flat else b.asks.flat, n.order.price = l.1 := by
  rw [levelsOf] at hl
  cases hb : e.books.lookup symbol with
  | none => exact absurd (hb ▸ hl) List.not_mem_nil
  | some b =>
    rw [hb, Option.elim_some] at hl
    obtain ⟨level, hlevel, rfl⟩ := List.mem_map.mp hl
    have hwf := h.wf symbol b hb
    split_ifs at hlevel ⊢
    · obtain ⟨hpos, hn⟩ := OrderBook.exists_order_of_mem_levels hwf.bids_leveled hlevel
      exact ⟨hpos, b, rfl, hn⟩
    · obtain ⟨hpos, hn⟩ := OrderBook.exists_order_of_mem_levels hwf.asks_leveled hlevel
      exact ⟨hpos, b, rfl, hn⟩

/-- The best levels of an uncrossed book. -/
lemma levelsOf_uncrossed {known : String → Prop} (h : System.BooksSound e.books known)
    (huncrossed : ∀ sym b, e.books.lookup sym = some b → b.Uncrossed) {bid ask : Price × ℤ}
    (hbid : bid ∈ e.levelsOf symbol '0') (hask : ask ∈ e.levelsOf symbol '1') :
    bid.1 < ask.1 := by
  obtain ⟨-, b, hb, n, hn, hprice⟩ := exists_order_of_mem_levelsOf h hbid
  obtain ⟨-, b', hb', m, hm, hprice'⟩ := exists_order_of_mem_levelsOf h hask
  obtain rfl := Option.some.inj (hb.symm.trans hb')
  have hlt := huncrossed symbol b hb n hn m hm
  rwa [hprice, hprice'] at hlt

end MatchingEngine

/-- No spread is negative when each bid is below each ask. -/
lemma spread_nonneg {bids asks : List (Price × ℤ)} (h : ∀ bid ∈ bids, ∀ ask ∈ asks, bid.1 < ask.1)
    {gap : Price} (hgap : gap ∈ spread bids.head? asks.head?) : 0 ≤ gap := by
  cases hbid : bids.head? with
  | none => exact absurd (hbid ▸ hgap) (by simp [spread])
  | some bid =>
    cases hask : asks.head? with
    | none => exact absurd (hask ▸ hbid ▸ hgap) (by simp [spread])
    | some ask =>
      rw [hbid, hask, spread] at hgap
      split_ifs at hgap
      · exact absurd hgap (by simp)
      · obtain rfl := Option.mem_some.mp hgap
        have hlt := h bid (List.mem_of_mem_head? hbid) ask (List.mem_of_mem_head? hask)
        exact Binary64.nearest_nonneg (sub_nonneg.mpr hlt.le)

namespace FixClient

/-! ## From the engine to the screen -/

section Server

variable {w : Wire} {symbols : List String} {cfg : Config} {symbol : String} {side : Char}

/-- The server has the levels of the engine. -/
lemma lookup_levels_of_run {as : List StartupAction} {s : Startup}
    (h : Startup.RunTo w symbols cfg (Startup.Undisturbed w symbols) as s)
    (hanswered : s.request = .answered [])
    (hdelivered : s.joined = some s.exchange.gateway.publisher.sent.length)
    (ht : s.exchange.tasks = []) (hfits : Startup.TotalsFit symbols s.exchange.engine)
    (hsymbol : symbol ∈ symbols) (hside : side = '0' ∨ side = '1') (price : Price) (qty : ℤ) :
    (s.market.subscriber.levels symbol side).lookup price = some qty ↔
      (price, qty) ∈ s.exchange.engine.levelsOf symbol side := by
  obtain ⟨es, hes⟩ := Startup.exchange_run h
  have hfeed := System.feedIsExact_of_fed hes ht symbols
  have hknows : s.Knows symbols symbol :=
    ⟨hsymbol, [], hanswered, fun reply hreply => absurd hreply List.not_mem_nil⟩
  rw [(Startup.tracks_of_run h).holds.levels symbol side price hknows hside, Startup.heard,
    Startup.position, hdelivered, Option.getD_some, List.take_length]
  have hmem : ∀ levels : List BookLevel,
      (price, qty) ∈ levels.map (fun l => (l.price, l.qty)) ↔ ⟨price, qty⟩ ∈ levels := by
    intro levels
    rw [List.mem_map]
    constructor
    · rintro ⟨l, hl, heq⟩
      obtain ⟨rfl, rfl⟩ := Prod.mk.inj heq
      exact hl
    · exact fun hl => ⟨_, hl, rfl⟩
  rw [MatchingEngine.levelsOf]
  cases hb : s.exchange.engine.books.lookup symbol with
  | none =>
    have hnone : ((subscriber symbols s.exchange.gateway.publisher).levels symbol side).lookup price
        = none := by
      rcases hside with rfl | rfl
      · exact (hfeed.others symbol hb price).1
      · exact (hfeed.others symbol hb price).2
    exact iff_of_false (fun hsome => absurd (hnone.symm.trans hsome) (by simp)) List.not_mem_nil
  | some b =>
    rw [Option.elim_some, hmem]
    obtain ⟨hwf, hbids, hasks⟩ := System.openSides_of_run
      (fun _ _ h => System.forwardsPositive_of_replacesPositive h.followed.positive) hes hb
    obtain ⟨hfitbids, hfitasks⟩ := hfits symbol hsymbol b hb
    rcases hside with rfl | rfl
    · exact (hfeed.bids symbol b hb price qty).trans
        ((hbids.levelsExact_iff hwf.bids_leveled).mpr hfitbids price qty).symm
    · exact (hfeed.asks symbol b hb price qty).trans
        ((hasks.levelsExact_iff hwf.asks_leveled).mpr hfitasks price qty).symm

end Server

namespace Screen

/-- The steps of a run in which neither the server nor the page misses anything. -/
def Steady (w : Wire) (symbols : List String) (s : Screen) (a : ScreenAction) : Prop :=
  s.Calm a ∧ ∀ b, a = .startup b → s.startup.Undisturbed w symbols b

instance {w : Wire} {symbols : List String} (s : Screen) :
    (a : ScreenAction) → Decidable (s.Steady w symbols a)
  | .startup b => decidable_of_iff (s.Calm (.startup b) ∧ s.startup.Undisturbed w symbols b)
      ⟨fun ⟨hc, hu⟩ => ⟨hc, fun _ hb => ScreenAction.startup.inj hb ▸ hu⟩,
        fun ⟨hc, hu⟩ => ⟨hc, hu b rfl⟩⟩
  | .connect | .greet | .send | .process _ | .disconnect | .reload =>
    decidable_of_iff (s.Calm _) ⟨fun hc => ⟨hc, fun _ hb => ScreenAction.noConfusion hb⟩, And.left⟩

section Run

variable {w : Wire} {symbols : List String} {cfg : Config} {as : List ScreenAction} {s : Screen}
  {symbol : String} {side : Char}

/-- The server goes through a run of its own. -/
lemma startup_run (h : RunTo w symbols cfg (Steady w symbols) as s) :
    ∃ bs, Startup.RunTo w symbols cfg (Startup.Undisturbed w symbols) bs s.startup := by
  refine h.invariant (I := fun s => ∃ bs, Startup.RunTo w symbols cfg
    (Startup.Undisturbed w symbols) bs s.startup) ⟨[], .refl⟩ fun as t a u _ ht hok hstep => ?_
  obtain ⟨bs, hbs⟩ := ht
  rcases startup_step hstep with hsame | ⟨b, rfl, hb⟩
  · exact ⟨bs, hsame ▸ hbs⟩
  · exact ⟨bs ++ [b], hbs.snoc (hok.2 b rfl) hb⟩

/-- The page lists the best levels of the engine. -/
lemma topTen_levels (h : RunTo w symbols cfg (Steady w symbols) as s)
    (hlisted : AllListed symbols s.startup.exchange) (hquiet : s.Quiet)
    (hdelivered : s.startup.joined = some s.startup.exchange.gateway.publisher.sent.length)
    (ht : s.startup.exchange.tasks = [])
    (hfits : Startup.TotalsFit symbols s.startup.exchange.engine) (hsymbol : symbol ∈ symbols) :
    symbol ∈ s.page.book ∧ ∀ side, side = '0' ∨ side = '1' →
      topTen side (s.page.levels symbol side)
        = (s.startup.exchange.engine.levelsOf symbol side).take 10 := by
  have hkept := kept_of_run (h.mono fun _ _ hok => hok.1) hlisted
  obtain ⟨bs, hbs⟩ := startup_run h
  obtain ⟨c, hc, hgreeted, htasks, hwire⟩ := hquiet
  have hagrees := hkept.agrees c hc hgreeted
  rw [coming, htasks, hwire, List.append_nil, List.foldl_nil] at hagrees
  refine ⟨hagrees.shown symbol (hkept.asked symbol hsymbol) fun _ => hsymbol, fun side hside => ?_⟩
  obtain ⟨hsorted, hnodup⟩ := MatchingEngine.levelsOf_sorted s.startup.exchange.engine symbol hside
  have hladder : Ladder.ladder (Ahead side) (s.page.levels symbol side)
      = s.startup.exchange.engine.levelsOf symbol side := by
    refine Ladder.ladder_eq hsorted hnodup fun price qty => ?_
    rw [hagrees.browser.levels symbol side price hside trivial]
    exact lookup_levels_of_run hbs (hkept.settled c hc hgreeted) hdelivered ht hfits
      hsymbol hside price qty
  rw [topTen, Ladder.best, hladder]

/-- **The screen shows the market.**  In every run in which neither the server nor the page misses
anything, once the publisher's packets have all come to a page that nothing is on its way to: a
symbol of the server is shown with the ten first levels that the engine returns for each side, in
their order, the asks with the worst one on top; each bid is below each ask, and the spread is not
negative; and each bar fits in its column. -/
theorem screen_shows_market {w : Wire} {symbols : List String} {cfg : Config}
    {as : List ScreenAction} {s : Screen} (h : RunTo w symbols cfg (Steady w symbols) as s)
    (hlisted : AllListed symbols s.startup.exchange) (hquiet : s.Quiet)
    (hdelivered : s.startup.joined = some s.startup.exchange.gateway.publisher.sent.length)
    (ht : s.startup.exchange.tasks = [])
    (hfits : Startup.TotalsFit symbols s.startup.exchange.engine) {symbol : String}
    (hsymbol : symbol ∈ symbols) (hnamed : symbol ≠ "") :
    ∃ view, s.page.renderBook symbol = some view ∧
      view = bookView ((s.startup.exchange.engine.levelsOf symbol '0').take 10)
        ((s.startup.exchange.engine.levelsOf symbol '1').take 10) ∧
      (∀ bid ∈ s.startup.exchange.engine.levelsOf symbol '0',
        ∀ ask ∈ s.startup.exchange.engine.levelsOf symbol '1', bid.1 < ask.1) ∧
      (∀ gap ∈ view.spread, 0 ≤ gap) ∧
      ∀ line ∈ view.asks ++ view.bids, 0 < line.qty ∧ 0 ≤ line.width ∧ line.width ≤ 76 := by
  obtain ⟨hshown, htop⟩ := topTen_levels h hlisted hquiet hdelivered ht hfits hsymbol
  obtain ⟨bs, hbs⟩ := startup_run h
  obtain ⟨es, hes⟩ := Startup.exchange_run hbs
  have hview : s.page.renderBook symbol
      = some (bookView ((s.startup.exchange.engine.levelsOf symbol '0').take 10)
        ((s.startup.exchange.engine.levelsOf symbol '1').take 10)) := by
    rw [Browser.renderBook, if_neg (not_or.mpr ⟨hnamed, not_not.mpr hshown⟩), Browser.sortedBids,
      Browser.sortedAsks, ← htop '0' (Or.inl rfl), ← htop '1' (Or.inr rfl)]
    rfl
  have hbelow : ∀ bid ∈ s.startup.exchange.engine.levelsOf symbol '0',
      ∀ ask ∈ s.startup.exchange.engine.levelsOf symbol '1', bid.1 < ask.1 :=
    fun bid hbid ask hask => MatchingEngine.levelsOf_uncrossed (System.sound_of_run hes).books
      (System.uncrossed_of_run (hes.mono fun _ _ _ => trivial)) hbid hask
  refine ⟨_, hview, rfl, hbelow, ?_, ?_⟩
  · exact fun gap hgap => spread_nonneg (fun bid hbid ask hask =>
      hbelow bid (List.mem_of_mem_take hbid) ask (List.mem_of_mem_take hask)) hgap
  · have hpos : ∀ side, ∀ l ∈ (s.startup.exchange.engine.levelsOf symbol side).take 10, 0 < l.2 :=
      fun side l hl => (MatchingEngine.exists_order_of_mem_levelsOf
        (System.sound_of_run hes).books (List.mem_of_mem_take hl)).1
    exact bookView_fits (hpos '0') (hpos '1')

end Run

/-- A page comes to know of one order from the snapshot, and of one from the feed. -/
def bookRun : List ScreenAction :=
  startupSteps servedStart ++ [.connect, .greet, .process 0] ++
    startupSteps (Startup.exchangeSteps (FixExchange.Sample.submit
      (FixExchange.Sample.limit "b" '2' 3 12) FixExchange.Sample.bob ++
        FixExchange.Sample.engine 2) ++ [.deliver 0]) ++
    [.send, .process 0]

theorem screen_shows_market_sample :
    ∃ s view, RunTo Startup.sampleWire ["X"] FixExchange.Sample.config
        (Steady Startup.sampleWire ["X"]) bookRun s ∧
      s.page.renderBook "X" = some view ∧ view = ⟨[⟨12, 3, 46⟩], some 2, [⟨10, 5, 76⟩]⟩ := by
  have hreach : ∃ s, RunTo Startup.sampleWire ["X"] FixExchange.Sample.config
      (Steady Startup.sampleWire ["X"]) bookRun s ∧
        (s.Quiet ∧ AllListed ["X"] s.startup.exchange ∧
          s.startup.joined = some s.startup.exchange.gateway.publisher.sent.length ∧
          s.startup.exchange.tasks = [] ∧ Startup.TotalsFit ["X"] s.startup.exchange.engine ∧
          s.startup.exchange.engine.levelsOf "X" '0' = [(10, 5)] ∧
          s.startup.exchange.engine.levelsOf "X" '1' = [(12, 3)]) :=
    Transition.exists_reaches (by decide +kernel) (by decide +kernel)
  obtain ⟨s, hrun, hquiet, hlisted, hdelivered, ht, hfits, hbids, hasks⟩ := hreach
  obtain ⟨view, hview, heq, -⟩ :=
    screen_shows_market hrun hlisted hquiet hdelivered ht hfits (List.mem_singleton_self "X")
      (by decide)
  rw [hbids, hasks] at heq
  exact ⟨s, view, hrun, hview, heq.trans (by decide +kernel)⟩

end Screen

end FixClient

end FixExchange
