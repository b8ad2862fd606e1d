/-
# The page and the server

The page `ui/static/index.html` next to a running server.  A page that connects is sent a `snapshot`
message when its handler gets to it, and a task is created for each message about a packet that the
server gets while the page is connected; the tasks take their turns behind the handler.  Connections
break, and what is on its way is lost; the page connects again with what it has, or is loaded again.

When no task is left over as the snapshot is made, the page comes to what the server has
(`page_follows_server`): the same tabs, the same levels, and charts with the same prices.  A packet
that is in the snapshot and in a task that is left over counts twice (`packet_counted_twice`).
-/
import FixExchange.System.FeedPriority
import FixExchange.Ui.Page

namespace FixExchange

namespace FixClient

/-- A connection of the page. -/
structure PageConnection where
  /-- The snapshot has been sent. -/
  greeted : Bool
  /-- The messages whose tasks wait for their turns. -/
  tasks : List PageMessage
  /-- The messages that have been sent, and that the page has not processed yet. -/
  wire : List PageMessage

/-- The exchange, the server and a page. -/
structure Screen where
  startup : Startup
  page : Page
  connection : Option PageConnection

/-- A step of the exchange, of the server or of the page. -/
inductive ScreenAction
  | startup (a : StartupAction)
  /-- The page connects, once the server has started. -/
  | connect
  /-- The handler of the connection makes the snapshot and sends it. -/
  | greet
  /-- The task that has waited longest sends its message. -/
  | send
  /-- The page processes a message, at a time of its clock. -/
  | process (now : ℚ)
  /-- The connection breaks. -/
  | disconnect
  /-- The page is loaded again. -/
  | reload

namespace Screen

/-- The exchange and the server at their start, and a page that has been loaded. -/
def start (cfg : Config) (symbols : List String) : Screen where
  startup := Startup.start cfg symbols
  page := .init
  connection := none

/-- The messages that a step of the server creates tasks for. -/
def announced (s : Startup) : StartupAction → List PageMessage
  | .deliver _ =>
    match s.joined.bind fun n => s.exchange.gateway.publisher.sent[n]? with
    | some pkt => s.market.broadcast pkt
    | none => []
  | _ => []

/-- The server serves a connection of the page, as long as there is one. -/
def serve (s : Screen) (f : PageConnection → Option PageConnection) : Option Screen :=
  (s.connection.bind f).map fun c => { s with connection := some c }

/-- One step. -/
def step (w : Wire) (symbols : List String) (s : Screen) : ScreenAction → Option Screen
  | .startup a =>
    (s.startup.step w symbols a).map fun startup =>
      { s with
        startup := startup
        connection := s.connection.map fun c =>
          { c with tasks := c.tasks ++ announced s.startup a } }
  | .connect =>
    if s.startup.joined.isSome ∧ s.connection.isNone then
      some { s with connection := some ⟨false, [], []⟩ }
    else none
  | .greet =>
    s.serve fun c =>
      if c.greeted then none
      else some { c with
        greeted := true
        wire := c.wire ++ [.snapshot s.startup.market.pageSnapshot] }
  | .send =>
    s.serve fun c =>
      match c.tasks with
      | [] => none
      | msg :: tasks => some { c with tasks := tasks, wire := c.wire ++ [msg] }
  | .process now =>
    s.connection.bind fun c =>
      match c.wire with
      | [] => none
      | msg :: wire =>
        some { s with page := s.page.process now msg, connection := some { c with wire := wire } }
  | .disconnect => s.connection.map fun _ => { s with connection := none }
  | .reload => some { s with page := .init, connection := none }

/-- `RunTo w symbols cfg ok as s`: the actions `as` lead from the start to `s`, and each of them
is allowed by `ok`. -/
abbrev RunTo (w : Wire) (symbols : List String) (cfg : Config) (ok : Screen → ScreenAction → Prop)
    (as : List ScreenAction) (s : Screen) : Prop :=
  Transition.Reaches (step w symbols) ok (start cfg symbols) as s

end Screen

/-! ## Packets that the page can take -/

section Feed

variable {listed : String → Prop} {symbols : List String} {cfg : Config} {es : List Action}
  {e : System}

/-- The packets of the feed are genuine, as long as the accepted orders are. -/
def genuineFeed (listed : String → Prop) :
    Follower (Order.Genuine listed) MarketDataPublisher where
  __ := sentPackets
  shows m L := (∀ pkt ∈ m.sent, Genuine listed pkt) ∧ GenuineOrders listed L
  shows_start _ _ := ⟨fun _ hpkt => absurd hpkt List.not_mem_nil, fun _ _ ho => nomatch ho⟩
  shows_notice m L n h hfits hrested := by
    refine ⟨?_, h.2.post hfits hrested⟩
    exact h.2.packets (.cons hfits .nil)
      (fun o k hmem => hrested o k (List.mem_singleton.mp hmem).symm) h.1

/-- The symbols that the server does not know from the start have no name that every object
has. -/
def Listed (symbols : List String) (symbol : String) : Prop :=
  symbol ∈ Browser.inherited → symbol ∈ symbols

instance (symbols : List String) (symbol : String) : Decidable (Listed symbols symbol) :=
  inferInstanceAs (Decidable (_ → _))

/-- Every symbol of the exchange is listed. -/
def AllListed (symbols : List String) (e : System) : Prop :=
  ∀ symbol ∈ e.engine.validSymbols, Listed symbols symbol

instance (symbols : List String) (e : System) : Decidable (AllListed symbols e) :=
  inferInstanceAs (Decidable (∀ _ ∈ _, _))

lemma AllListed.of_step {e' : System} {a : Action} (h : AllListed symbols e')
    (hstep : e.step a = some e') : AllListed symbols e := fun symbol hsymbol =>
  h symbol (System.mem_validSymbols_step hstep hsymbol)

/-- An accepted order is genuine. -/
lemma accepting_genuine {a : Action} (hfed : e.Fed a) (hlisted : AllListed symbols e) :
    System.Accepting (Order.Genuine (Listed symbols)) e a := by
  have hfits := hfed.textsFit.accepting
  unfold System.Accepting at hfits ⊢
  split
  · rename_i msg session
    rcases System.onMessage_cases e session (.newOrder msg) with ⟨seq, sent, heq, -⟩ |
        ⟨m, o, hm, ho, heq⟩ | ⟨m, req, hm, -⟩ | ⟨m, req, hm, -⟩
    · simp only [heq]
    · simp only [heq] at hfits ⊢
      exact ⟨hfits, hlisted _ ho.validSymbol, _, ho.exchangeId⟩
    · exact absurd hm (by simp)
    · exact absurd hm (by simp)
  · trivial

/-- **The packets of a run are genuine.** -/
lemma genuine_of_run (h : System.RunTo cfg System.Fed es e) (hlisted : AllListed symbols e) :
    ∀ pkt ∈ e.gateway.publisher.sent, Genuine (Listed symbols) pkt := by
  have hrun : System.RunTo cfg (System.Followed (Order.Genuine (Listed symbols))) es e := by
    revert hlisted
    refine h.invariant_history (I := fun es e => AllListed symbols e →
      System.RunTo cfg (System.Followed (Order.Genuine (Listed symbols))) es e) (fun _ => .refl)
      fun es t a u _ ih hok hstep hlisted => ?_
    have hlisted := hlisted.of_step hstep
    exact (ih hlisted).snoc ⟨hok.followed.positive, hok.followed.quiet,
      accepting_genuine hok hlisted⟩ hstep
  have hfollowing := (System.following_of_run (F := genuineFeed (Listed symbols)) hrun).1
  obtain ⟨pkts, hsent, -⟩ := Notice.exists_publishes
    (noticesOf e.tasks e.gateway.active) e.gateway.publisher
  intro pkt hpkt
  refine hfollowing pkt ?_
  show pkt ∈ ((noticesOf e.tasks e.gateway.active).foldl Notice.publish e.gateway.publisher).sent
  rw [hsent]
  exact List.mem_append_left _ hpkt

end Feed

/-! ## All runs -/

lemma shallow_of_short {s : Subscriber} (h : s.Short) {symbols : List String}
    (hasked : ∀ symbol ∈ symbols, symbol ∈ s.orderBook) : s.Shallow (Listed symbols) := by
  refine ⟨fun symbol side hside => ?_, fun symbol hsymbol hlisted _ =>
    hasked symbol (hlisted hsymbol)⟩
  rw [Subscriber.levels, Subscriber.bookOf]
  cases hbook : s.orderBook.lookup symbol with
  | none => split_ifs <;> simp
  | some book =>
    obtain ⟨hbids, hasks⟩ := h _ (AList.mem_lookup_iff.mp hbook)
    rw [Option.getD_some]
    split_ifs
    · exact hbids
    · exact hasks

namespace Screen

/-- The steps of a run in which the page comes to what the server has: the feed keeps up with the
book, and as the snapshot is made no task is left over, no answer for the server is on its way, and
no side of a book has more than ten levels. -/
def Calm (s : Screen) : ScreenAction → Prop
  | .startup (.exchange a) => s.startup.exchange.Fed a
  | .greet => (∀ c ∈ s.connection, c.tasks = []) ∧ s.startup.request = .answered [] ∧
      s.startup.market.subscriber.Short
  | _ => True

instance (s : Screen) : (a : ScreenAction) → Decidable (s.Calm a)
  | .startup (.exchange a) => inferInstanceAs (Decidable (s.startup.exchange.Fed a))
  | .greet => inferInstanceAs (Decidable ((∀ c ∈ s.connection, c.tasks = []) ∧ _ ∧ _))
  | .startup .request | .startup (.snapshot _) | .startup (.receive _) | .startup .join |
    .startup (.deliver _) | .connect | .send | .process _ | .disconnect | .reload => isTrue trivial

/-- The page as it will be when it has processed all that is on its way. -/
def coming (s : Screen) (c : PageConnection) : Page :=
  (c.wire ++ c.tasks).foldl (fun p msg => p.process 0 msg) s.page

/-- The snapshot has been sent, and nothing is on its way. -/
def Quiet (s : Screen) : Prop := ∃ c ∈ s.connection, c.greeted = true ∧ c.tasks = [] ∧ c.wire = []

instance (s : Screen) : Decidable s.Quiet := inferInstanceAs (Decidable (∃ _ ∈ _, _))

/-- What holds in every reachable state. -/
structure Kept (symbols : List String) (s : Screen) : Prop where
  asked : ∀ symbol ∈ symbols, symbol ∈ s.startup.market.subscriber.orderBook
  within : s.page.Within s.startup.market
  timed : s.page.Timed
  market : s.startup.market.Timed
  messages : ∀ c ∈ s.connection, ∀ msg ∈ c.wire ++ c.tasks,
    msg.Within s.startup.market ∧ msg.Timed
  settled : ∀ c ∈ s.connection, c.greeted → s.startup.request = .answered []
  agrees : ∀ c ∈ s.connection, c.greeted →
    Agrees (Listed symbols) s.startup.market (s.coming c)

section Steps

variable {w : Wire} {symbols : List String} {s s' : Screen} {cfg : Config} {c : PageConnection}

lemma kept_start (symbols : List String) (cfg : Config) : (start cfg symbols).Kept symbols := by
  refine ⟨fun symbol h => Startup.mem_orderBook_init h, ⟨fun _ h => ?_, fun _ h => ?_⟩,
    fun _ _ h => ?_, fun _ _ h => ?_, fun c hc => ?_, fun c hc => ?_, fun c hc => ?_⟩
  · exact absurd h (AList.notMem_empty _)
  · exact absurd h (AList.notMem_empty _)
  · exact absurd h (by simp [start, Page.init])
  · exact absurd h (by simp [start, Startup.start])
  all_goals exact absurd hc (by simp [start])

/-- What a step of the server does to the market. -/
lemma market_step {t t' : Startup} {a : StartupAction} (hstep : t.step w symbols a = some t') :
    (t'.market = t.market ∧ announced t a = [] ∧
        (t.request = .answered [] → t'.request = .answered [])) ∨
      (∃ rs p, t.request = .answered rs ∧ rs ≠ [] ∧
        t'.market = processMdSnapshot w.strptime t.market p ∧ announced t a = []) ∨
      ∃ now pkt, pkt ∈ t.exchange.gateway.publisher.sent ∧ t'.market = t.market.receive now pkt ∧
        announced t a = t.market.broadcast pkt ∧ t'.request = t.request := by
  cases a with
  | exchange a =>
    obtain ⟨e, -, rfl | ⟨hunanswered, ahead, rfl⟩⟩ := Startup.exchangeStep_cases hstep
    · exact Or.inl ⟨rfl, rfl, fun h => h⟩
    · refine Or.inl ⟨rfl, rfl, fun h => absurd ?_ hunanswered⟩
      rw [h]
      trivial
  | request =>
    obtain ⟨hunanswered, ahead, rfl⟩ := Startup.step_request hstep
    refine Or.inl ⟨rfl, rfl, fun h => absurd ?_ hunanswered⟩
    rw [h]
    trivial
  | snapshot trades =>
    obtain ⟨hunanswered, -, rfl⟩ := Startup.step_snapshot hstep
    refine Or.inl ⟨rfl, rfl, fun h => absurd ?_ hunanswered⟩
    rw [h]
    trivial
  | receive symbol =>
    obtain ⟨rs, body, p, hrequest, hbody, -, rfl⟩ := Startup.step_receive hstep
    refine Or.inr (Or.inl ⟨rs, p, hrequest, ?_, rfl, rfl⟩)
    rintro rfl
    exact absurd hbody (by simp)
  | join =>
    obtain ⟨-, rfl⟩ := Startup.step_join hstep
    exact Or.inl ⟨rfl, rfl, fun h => h⟩
  | deliver now =>
    obtain ⟨n, pkt, hjoined, hpkt, rfl⟩ := Startup.step_deliver hstep
    refine Or.inr (Or.inr ⟨now, pkt, List.mem_of_getElem? hpkt, rfl, ?_, rfl⟩)
    simp only [announced, hjoined, Option.bind_some, hpkt]

/-- A step of the exchange or of the server. -/
lemma Kept.startup (h : s.Kept symbols)
    (hfeed : ∀ pkt ∈ s.startup.exchange.gateway.publisher.sent, Genuine (Listed symbols) pkt)
    {t : Startup} {a : StartupAction} (hstep : s.startup.step w symbols a = some t) :
    Kept symbols { s with
      startup := t
      connection := s.connection.map fun c =>
        { c with tasks := c.tasks ++ announced s.startup a } } := by
  have hcoming : ∀ c, Screen.coming
      { s with
        startup := t
        connection := s.connection.map fun c =>
          { c with tasks := c.tasks ++ announced s.startup a } }
      { c with tasks := c.tasks ++ announced s.startup a }
        = (announced s.startup a).foldl (fun p msg => p.process 0 msg) (s.coming c) := by
    intro c
    rw [coming, coming, ← List.foldl_append, List.append_assoc]
  rcases market_step hstep with ⟨hmarket, hnone, hrequest⟩ | ⟨rs, p, hrs, hne, hmarket, hnone⟩ |
    ⟨now, pkt, hpkt, hmarket, hannounced, hrequest⟩
  · -- the market is the same
    refine ⟨?_, ?_, h.timed, ?_, fun c' hc' => ?_, fun c' hc' hgreeted => ?_,
      fun c' hc' hgreeted => ?_⟩
    · exact hmarket ▸ h.asked
    · exact hmarket ▸ h.within
    · exact hmarket ▸ h.market
    all_goals obtain ⟨c, hc, rfl⟩ := Option.map_eq_some_iff.mp hc'
    · rw [hnone, List.append_nil]
      exact hmarket ▸ h.messages c hc
    · exact hrequest (h.settled c hc hgreeted)
    · rw [hcoming, hnone]
      exact hmarket ▸ h.agrees c hc hgreeted
  · -- the server gets an answer, before it has greeted a page
    have hgrows := MarketState.Grows.process w.strptime s.startup.market p
    rw [← hmarket] at hgrows
    have hungreeted : ∀ c ∈ s.connection, c.greeted → False := fun c hc hgreeted =>
      hne (SnapshotRequest.answered.inj (hrs.symm.trans (h.settled c hc hgreeted)))
    refine ⟨fun symbol hsymbol => hgrows.book symbol (h.asked symbol hsymbol),
      h.within.mono hgrows, h.timed, ?_, fun c' hc' => ?_, fun c' hc' hgreeted => ?_,
      fun c' hc' hgreeted => ?_⟩
    · exact hmarket ▸ h.market.process w.strptime p
    all_goals obtain ⟨c, hc, rfl⟩ := Option.map_eq_some_iff.mp hc'
    · rw [hnone, List.append_nil]
      exact fun msg hmsg => ⟨(h.messages c hc msg hmsg).1.mono hgrows, (h.messages c hc msg hmsg).2⟩
    · exact (hungreeted c hc hgreeted).elim
    · exact (hungreeted c hc hgreeted).elim
  · -- the server gets a packet
    have hgrows := MarketState.Grows.receive s.startup.market now pkt
    rw [← hmarket] at hgrows
    refine ⟨fun symbol hsymbol => hgrows.book symbol (h.asked symbol hsymbol),
      h.within.mono hgrows, h.timed, ?_, fun c' hc' => ?_, fun c' hc' hgreeted => ?_,
      fun c' hc' hgreeted => ?_⟩
    · exact hmarket ▸ h.market.receive now pkt
    all_goals obtain ⟨c, hc, rfl⟩ := Option.map_eq_some_iff.mp hc'
    · intro msg hmsg
      rw [hannounced, ← List.append_assoc] at hmsg
      rcases List.mem_append.mp hmsg with hmsg | hmsg
      · exact ⟨(h.messages c hc msg hmsg).1.mono hgrows, (h.messages c hc msg hmsg).2⟩
      · rw [hmarket]
        exact ⟨within_broadcast _ now pkt msg hmsg, timed_broadcast hmsg⟩
    · exact hrequest.trans (h.settled c hc hgreeted)
    · rw [hcoming, hannounced]
      exact hmarket ▸ (h.agrees c hc hgreeted).receive (hfeed pkt hpkt) now 0

lemma serve_eq_some {f : PageConnection → Option PageConnection} (h : s.serve f = some s') :
    ∃ c c', s.connection = some c ∧ f c = some c' ∧ s' = { s with connection := some c' } := by
  obtain ⟨c', hc', rfl⟩ := Option.map_eq_some_iff.mp h
  obtain ⟨c, hc, hf⟩ := Option.bind_eq_some_iff.mp hc'
  exact ⟨c, c', hc, hf, rfl⟩

/-- The handler makes the snapshot, with no task left over. -/
lemma Kept.greet (h : s.Kept symbols) (hc : s.connection = some c) (htasks : c.tasks = [])
    (hrequest : s.startup.request = .answered []) (hshort : s.startup.market.subscriber.Short) :
    Kept symbols { s with
      connection := some { c with
        greeted := true
        wire := c.wire ++ [.snapshot s.startup.market.pageSnapshot] } } := by
  refine ⟨h.asked, h.within, h.timed, h.market, fun c' hc' => ?_, fun c' hc' _ => hrequest,
    fun c' hc' _ => ?_⟩
  all_goals obtain rfl := Option.some.inj hc'
  · intro msg hmsg
    rw [htasks, List.append_nil] at hmsg
    rcases List.mem_append.mp hmsg with hmsg | hmsg
    · exact h.messages c hc msg (List.mem_append_left _ hmsg)
    · obtain rfl := List.mem_singleton.mp hmsg
      refine ⟨within_pageSnapshot _, fun e he => ?_⟩
      obtain ⟨e', he', rfl⟩ := List.mem_map.mp he
      exact h.market _ _ (AList.mem_lookup_iff.mpr he')
  · -- whatever the page hears before, the snapshot takes its place
    have hbefore : (c.wire.foldl (fun p msg => p.process 0 msg) s.page).Within s.startup.market :=
      h.within.foldl_process (fun msg hmsg =>
        (h.messages c hc msg (List.mem_append_left _ hmsg)).1) 0
    rw [coming, htasks, List.append_nil, List.foldl_append]
    exact Agrees.snapshot hbefore (shallow_of_short hshort h.asked)

/-- The page processes a message. -/
lemma Kept.process (h : s.Kept symbols) (hc : s.connection = some c) {msg : PageMessage}
    {wire : List PageMessage} (hwire : c.wire = msg :: wire) (now : ℚ) :
    Kept symbols { s with
      page := s.page.process now msg
      connection := some { c with wire := wire } } := by
  obtain ⟨hwithin, htimed⟩ := h.messages c hc msg (by rw [hwire]; simp)
  refine ⟨h.asked, h.within.process hwithin now, h.timed.process htimed now, h.market,
    fun c' hc' => ?_, fun c' hc' hgreeted => ?_, fun c' hc' hgreeted => ?_⟩
  all_goals obtain rfl := Option.some.inj hc'
  · intro msg' hmsg'
    refine h.messages c hc msg' ?_
    rw [hwire]
    exact List.mem_cons_of_mem _ hmsg'
  · exact h.settled c hc hgreeted
  · have hagrees := h.agrees c hc hgreeted
    rw [coming, hwire] at hagrees
    exact hagrees.of_alike (((Page.Alike.refl s.page).process 0 now msg).foldl_process 0 0 _)

/-- **Every step keeps the page on its way to what the server has.** -/
theorem Kept.step (h : s.Kept symbols)
    (hfeed : ∀ pkt ∈ s.startup.exchange.gateway.publisher.sent, Genuine (Listed symbols) pkt)
    {a : ScreenAction} (hok : s.Calm a) (hstep : s.step w symbols a = some s') :
    s'.Kept symbols := by
  cases a with
  | startup a =>
    obtain ⟨t, ht, rfl⟩ := Option.map_eq_some_iff.mp hstep
    exact h.startup hfeed ht
  | connect =>
    simp only [Screen.step] at hstep
    split_ifs at hstep
    obtain rfl := Option.some.inj hstep
    refine ⟨h.asked, h.within, h.timed, h.market, fun c hc => ?_, fun c hc hgreeted => ?_,
      fun c hc hgreeted => ?_⟩
    all_goals obtain rfl := Option.some.inj hc
    · exact fun msg hmsg => absurd hmsg (by simp)
    · exact absurd hgreeted (by simp)
    · exact absurd hgreeted (by simp)
  | greet =>
    obtain ⟨c, c', hc, hc', rfl⟩ := serve_eq_some hstep
    split_ifs at hc'
    obtain rfl := Option.some.inj hc'
    exact h.greet hc (hok.1 c hc) hok.2.1 hok.2.2
  | send =>
    obtain ⟨c, c', hc, hc', rfl⟩ := serve_eq_some hstep
    cases htasks : c.tasks with
    | nil => simp [htasks] at hc'
    | cons msg tasks =>
      simp only [htasks] at hc'
      obtain rfl := Option.some.inj hc'
      have hsame : (c.wire ++ [msg]) ++ tasks = c.wire ++ c.tasks := by simp [htasks]
      refine ⟨h.asked, h.within, h.timed, h.market, fun c' hc' => ?_, fun c' hc' hgreeted => ?_,
        fun c' hc' hgreeted => ?_⟩
      all_goals obtain rfl := Option.some.inj hc'
      · rw [hsame]
        exact h.messages c hc
      · exact h.settled c hc hgreeted
      · rw [coming, hsame]
        exact h.agrees c hc hgreeted
  | process now =>
    obtain ⟨c, hc, hprocess⟩ := Option.bind_eq_some_iff.mp hstep
    cases hwire : c.wire with
    | nil => simp [hwire] at hprocess
    | cons msg wire =>
      simp only [hwire] at hprocess
      obtain rfl := Option.some.inj hprocess
      exact h.process hc hwire now
  | disconnect =>
    obtain ⟨c, -, rfl⟩ := Option.map_eq_some_iff.mp hstep
    exact ⟨h.asked, h.within, h.timed, h.market, by simp, by simp, by simp⟩
  | reload =>
    obtain rfl := Option.some.inj hstep
    refine ⟨h.asked, ⟨fun _ h => ?_, fun _ h => ?_⟩, fun _ _ h => ?_, h.market, by simp, by simp,
      by simp⟩
    · exact absurd h (AList.notMem_empty _)
    · exact absurd h (AList.notMem_empty _)
    · exact absurd h (by simp [Page.init])

/-- What a step does to the server. -/
lemma startup_step {a : ScreenAction} (hstep : s.step w symbols a = some s') :
    s'.startup = s.startup ∨ ∃ b, a = .startup b ∧
      s.startup.step w symbols b = some s'.startup := by
  cases a with
  | startup a =>
    obtain ⟨t, ht, rfl⟩ := Option.map_eq_some_iff.mp hstep
    exact Or.inr ⟨a, rfl, ht⟩
  | connect =>
    simp only [Screen.step] at hstep
    split_ifs at hstep
    obtain rfl := Option.some.inj hstep
    exact Or.inl rfl
  | greet | send =>
    obtain ⟨c, c', -, -, rfl⟩ := serve_eq_some hstep
    exact Or.inl rfl
  | process now =>
    obtain ⟨c, -, hprocess⟩ := Option.bind_eq_some_iff.mp hstep
    cases hwire : c.wire with
    | nil => simp [hwire] at hprocess
    | cons msg wire =>
      simp only [hwire] at hprocess
      obtain rfl := Option.some.inj hprocess
      exact Or.inl rfl
  | disconnect =>
    obtain ⟨c, -, rfl⟩ := Option.map_eq_some_iff.mp hstep
    exact Or.inl rfl
  | reload =>
    obtain rfl := Option.some.inj hstep
    exact Or.inl rfl

/-- What a step does to the exchange. -/
lemma exchange_step {a : ScreenAction} (hok : s.Calm a) (hstep : s.step w symbols a = some s') :
    s'.startup.exchange = s.startup.exchange ∨ ∃ e, s.startup.exchange.Fed e ∧
      s.startup.exchange.step e = some s'.startup.exchange := by
  rcases startup_step hstep with hsame | ⟨a, rfl, ha⟩
  · exact Or.inl (congrArg Startup.exchange hsame)
  · revert ha
    generalize s'.startup = t
    intro ha
    cases a with
    | exchange a =>
      obtain ⟨e, he, rfl | ⟨-, ahead, rfl⟩⟩ := Startup.exchangeStep_cases ha <;>
        exact Or.inr ⟨a, hok, he⟩
    | request =>
      obtain ⟨-, ahead, rfl⟩ := Startup.step_request ha
      exact Or.inl rfl
    | snapshot trades =>
      obtain ⟨-, -, rfl⟩ := Startup.step_snapshot ha
      exact Or.inl rfl
    | receive symbol =>
      obtain ⟨rs, body, p, -, -, -, rfl⟩ := Startup.step_receive ha
      exact Or.inl rfl
    | join =>
      obtain ⟨-, rfl⟩ := Startup.step_join ha
      exact Or.inl rfl
    | deliver now =>
      obtain ⟨n, pkt, -, -, rfl⟩ := Startup.step_deliver ha
      exact Or.inl rfl

/-- The exchange goes through a run of its own. -/
lemma exchange_run {as : List ScreenAction} (h : RunTo w symbols cfg Calm as s) :
    ∃ es, System.RunTo cfg System.Fed es s.startup.exchange := by
  refine h.invariant (I := fun s => ∃ es, System.RunTo cfg System.Fed es s.startup.exchange)
    ⟨[], .refl⟩ fun as t a u _ ht hok hstep => ?_
  obtain ⟨es, hes⟩ := ht
  rcases exchange_step hok hstep with hsame | ⟨e, hfed, he⟩
  · exact ⟨es, hsame ▸ hes⟩
  · exact ⟨es ++ [e], hes.snoc hfed he⟩

lemma kept_of_run {as : List ScreenAction} (h : RunTo w symbols cfg Calm as s)
    (hlisted : AllListed symbols s.startup.exchange) : s.Kept symbols := by
  revert hlisted
  refine h.invariant (I := fun s => AllListed symbols s.startup.exchange → s.Kept symbols)
    (fun _ => kept_start symbols cfg) fun as t a u hrun ht hok hstep hlisted => ?_
  have hbefore : AllListed symbols t.startup.exchange := by
    rcases exchange_step hok hstep with hsame | ⟨e, -, he⟩
    · exact hsame ▸ hlisted
    · exact hlisted.of_step he
  obtain ⟨es, hes⟩ := exchange_run hrun
  exact (ht hbefore).step (genuine_of_run hes hbefore) hok hstep

end Steps

/-- **The page follows the server.**  In every run of the exchange, the server and a page, with any
connections that break and pages that are loaded again, and whatever the clocks say: when a snapshot
has been sent to the page and nothing is on its way, its tabs are the symbols that the server knows,
its orders and its levels are those of the server, and its charts have the same prices as those of
the server; provided that no task is left over when a snapshot is made.  The times of its charts
increase strictly at any moment. -/
theorem page_follows_server {w : Wire} {symbols : List String} {cfg : Config}
    {as : List ScreenAction} {s : Screen} (h : RunTo w symbols cfg Calm as s)
    (hlisted : AllListed symbols s.startup.exchange) :
    (∀ symbol, Increasing (s.page.chart symbol)) ∧
      (s.Quiet →
        s.page.symbols.Nodup ∧
        (∀ symbol, symbol ∈ s.page.symbols ↔ symbol ∈ s.startup.market.subscriber.orderBook) ∧
        (∀ eid, s.page.bookOrders.lookup eid
          = (s.startup.market.subscriber.orderState.lookup eid).map OrderState.booked) ∧
        (∀ symbol side price, side = '0' ∨ side = '1' →
          (s.page.levels symbol side).lookup price
            = (s.startup.market.subscriber.levels symbol side).lookup price) ∧
        ∀ symbol ∉ Browser.inherited,
          (s.page.chart symbol).map TradePoint.value
            = (s.startup.market.chart symbol).map TradePoint.value) := by
  have hkept := kept_of_run h hlisted
  refine ⟨fun symbol => ?_, ?_⟩
  · rw [Page.chart]
    cases hpoints : s.page.tradeHistory.lookup symbol with
    | none => exact List.Pairwise.nil
    | some points => exact (hkept.timed symbol points hpoints).1
  · rintro ⟨c, hc, hgreeted, htasks, hwire⟩
    have hagrees := hkept.agrees c hc hgreeted
    rw [coming, htasks, hwire, List.append_nil, List.foldl_nil] at hagrees
    refine ⟨hagrees.nodup, hagrees.tabs, hagrees.browser.orders,
      fun symbol side price hside => hagrees.browser.levels symbol side price hside trivial,
      fun symbol hfree => ?_⟩
    have hvalues : ∀ points : Option (List TradePoint), (points.getD []).map TradePoint.value
        = (points.map (List.map TradePoint.value)).getD [] := by
      rintro (_ | points) <;> rfl
    rw [Page.chart, MarketState.chart, hvalues, hvalues]
    exact congrArg (Option.getD · []) (hagrees.prices symbol hfree)

/-! ## Two pages -/

/-- The steps of the exchange and of the server. -/
def startupSteps (as : List StartupAction) : List ScreenAction := as.map .startup

/-- An order rests as the server starts. -/
def servedStart : List StartupAction :=
  Startup.exchangeSteps (FixExchange.Sample.submit (FixExchange.Sample.limit "a" '1' 5 10)
      FixExchange.Sample.alice ++ FixExchange.Sample.engine 2) ++
    [.request, .snapshot fun _ => [], .receive "X", .join]

/-- An order of a symbol that has been registered late. -/
def lateOrder : Message :=
  .newOrder
    { clOrdID := "c"
      symbol := "Y"
      side := '2'
      ordType := '2'
      orderQty := 4
      price := some 7 }

/-- The page connects and hears of a trade; its connection breaks as it hears of a new symbol, and
it connects again. -/
def calmRun : List ScreenAction :=
  startupSteps servedStart ++ [.connect, .greet, .process 0] ++
    startupSteps (Startup.exchangeSteps (FixExchange.Sample.submit
      (FixExchange.Sample.limit "b" '2' 3 10) FixExchange.Sample.bob ++
        FixExchange.Sample.engine 6) ++ [.deliver 0, .deliver 0]) ++
    [.send, .process 0, .send, .process 0] ++
    startupSteps (Startup.exchangeSteps (.registerSymbol "Y" ::
      FixExchange.Sample.submit lateOrder FixExchange.Sample.bob ++
        FixExchange.Sample.engine 2) ++ [.deliver 0]) ++
    [.send, .process 0, .disconnect, .connect, .greet, .process 0]

theorem page_follows_server_sample :
    ∃ s, RunTo Startup.sampleWire ["X"] FixExchange.Sample.config Calm calmRun s ∧
      s.page.symbols.length = 2 ∧ "Y" ∈ s.page.symbols ∧
      (s.page.levels "Y" '1').lookup 7 = some 4 ∧
      (s.page.levels "X" '0').lookup 10
        = (s.startup.market.subscriber.levels "X" '0').lookup 10 := by
  have hreach : ∃ s, RunTo Startup.sampleWire ["X"] FixExchange.Sample.config Calm calmRun s ∧
      (s.Quiet ∧ AllListed ["X"] s.startup.exchange ∧ s.page.symbols.length = 2 ∧
        "Y" ∈ s.startup.market.subscriber.orderBook ∧
        (s.startup.market.subscriber.levels "Y" '1').lookup 7 = some 4) :=
    Transition.exists_reaches (by decide +kernel) (by decide +kernel)
  obtain ⟨s, hrun, hquiet, hlisted, hlength, hknown, hlevel⟩ := hreach
  obtain ⟨-, htabs, -, hlevels, -⟩ := (page_follows_server hrun hlisted).2 hquiet
  exact ⟨s, hrun, hlength, (htabs "Y").mpr hknown, (hlevels "Y" '1' 7 (Or.inr rfl)).trans hlevel,
    hlevels "X" '0' 10 (Or.inl rfl)⟩

/-- An order comes to rest as a page connects: its task is left over when the snapshot is made. -/
def hastyRun : List ScreenAction :=
  startupSteps servedStart ++ [.connect] ++
    startupSteps (Startup.exchangeSteps (FixExchange.Sample.submit
      (FixExchange.Sample.limit "b" '1' 3 9) FixExchange.Sample.bob ++
        FixExchange.Sample.engine 2) ++ [.deliver 0]) ++
    [.greet, .send, .process 0, .process 0]

/-- The order counts twice on the page: nothing is on its way, and the page shows twice the quantity
that the server has. -/
theorem packet_counted_twice :
    ∃ s, RunTo Startup.sampleWire ["X"] FixExchange.Sample.config (fun _ _ => True) hastyRun s ∧
      s.Quiet ∧ (s.startup.market.subscriber.levels "X" '0').lookup 9 = some 3 ∧
      (s.page.levels "X" '0').lookup 9 = some 6 :=
  Transition.exists_reaches (by decide +kernel) (by decide +kernel)

end Screen

end FixClient

end FixExchange
