/-
# The open orders and the resting orders

What holds in every run whose replaces carry positive quantities: the books hold open orders
only, and once the pending tasks have run the open orders of the gateway agree with the
resting ones.  The invariant speaks about the open orders as they will be then
(`openOrders`), so that the sections of a callback do not disturb it.
-/
import FixExchange.Gateway.FollowsBook
import FixExchange.System.Incoming
import FixExchange.System.Resting

namespace FixExchange

/-- A message that carries a positive quantity, when it is a replace request. -/
def Action.ReplacesPositive : Action → Prop
  | .message (.replace msg) _ => 0 < castInt msg.orderQty
  | _ => True

instance (a : Action) : Decidable a.ReplacesPositive := by
  unfold Action.ReplacesPositive
  split <;> infer_instance

namespace OrderBook

variable {b : OrderBook}

lemma Positive.processIn (hp : b.Positive) (h : b.Wf) {item : WorkItem}
    (hreq : ∀ req, item = .replace req → (∃ n ∈ b.nodes, n.order.exchangeId = req.origOrderId) →
      0 < req.newQty) : (processIn b item).1.Positive := by
  cases item with
  | order o =>
    rcases processOrder_book b o with hb | hb
    · rw [FixExchange.processIn, hb]; exact hp
    · rw [FixExchange.processIn, hb]; exact hp.add h o
  | cancel req => exact hp.cancel h _
  | replace req =>
    rw [FixExchange.processIn, processReplace]
    rcases h.replace_eq req.origOrderId req.newPrice req.newQty with ⟨-, hr⟩ | ⟨n, hn, hid, -⟩
    · rw [hr]
      exact hp
    · exact hp.replace h _ _ (hreq req rfl ⟨n, hn, hid⟩)

end OrderBook

namespace System

variable {s s' : System}

/-- A replace request that is passed on carries a positive quantity. -/
def ForwardsPositive (s : System) (a : Action) : Prop :=
  ∀ req, s.Forwards a (.replace req) → 0 < req.newQty

lemma forwardsPositive_of_replacesPositive {a : Action} (h : a.ReplacesPositive) :
    s.ForwardsPositive a := by
  intro req hforward
  cases hforward with
  | replace hreq handler =>
    rw [hreq.qty]
    exact h

/-- The open orders of the gateway once the pending tasks have run. -/
def openOrders (s : System) : OrderLedger := settle s.tasks s.gateway.active

lemma openOrders_of_no_tasks (h : s.tasks = []) : s.openOrders = s.gateway.active := by
  rw [openOrders, h, settle_nil]

/-- The task that the engine thread runs next changes the open orders as its callback says. -/
def TaskSettles (s : System) : Action → Prop
  | .engine => ∀ t ts, s.tasks = t :: ts →
    settle ((s.gateway.runTask t).2 ++ ts) (s.gateway.runTask t).1.active
      = settle (t :: ts) s.gateway.active
  | _ => True

/-- A section of a callback does what the open orders take into account already. -/
lemma openOrders_task (hset : s.TaskSettles .engine) {t : Task} {ts : List Task}
    (ht : s.tasks = t :: ts) :
    ({ s with
      gateway := (s.gateway.runTask t).1
      tasks := (s.gateway.runTask t).2 ++ ts } : System).openOrders = s.openOrders := by
  rw [openOrders, openOrders, hset t ts ht, ht]

/-- When every open order has a session every task does what its callback says. -/
lemma Sound.taskSettles (hs : s.Sound) (a : Action) : s.TaskSettles a := by
  cases a with
  | engine =>
    intro t ts ht
    have hcov := hs.maps.covered
    rw [ht] at hcov
    exact (FixGateway.runTask_runsTo hcov).settle
  | message | logon | handle | persist | registerSymbol => trivial

/-- A replace request that the gateway has let through. -/
structure RequestOk (A : OrderLedger) (req : ReplaceRequest) : Prop where
  positive : 0 < req.newQty
  same : ∀ a, A req.origOrderId = some a → a.symbol = req.symbol ∧ a.side = req.side

/-- The open orders of the gateway agree with the books. -/
structure Synced (s : System) : Prop where
  positive : ∀ sym b, s.engine.books.lookup sym = some b → b.Positive
  agrees : Agrees s.openOrders (restingLedger s.engine.books)
  orders : ∀ o, .order o ∈ s.coming → s.openOrders o.exchangeId = some o
  requests : ∀ req, .replace req ∈ s.coming → RequestOk s.openOrders req

lemma RequestOk.mono {A A' : OrderLedger} {req : ReplaceRequest} (h : RequestOk A req)
    (hA : ∀ a', A' req.origOrderId = some a' → ∃ a, A req.origOrderId = some a ∧ a'.SameOrigin a) :
    RequestOk A' req := by
  refine ⟨h.positive, fun a' ha' => ?_⟩
  obtain ⟨a, ha, hsame⟩ := hA a' ha'
  rw [hsame.symbol, hsame.side]
  exact h.same a ha

lemma synced_start (cfg : Config) : (start cfg).Synced := by
  have hbook : ∀ sym b, (start cfg).engine.books.lookup sym = some b → ∀ n, n ∉ b.nodes := by
    intro sym b hb
    rw [start, lookup_init_books] at hb
    split_ifs at hb
    rw [← Option.some.inj hb]
    simp [OrderBook.init, OrderBook.nodes]
  refine ⟨fun sym b hb n hn => absurd hn (hbook sym b hb n), fun id o ho => ?_,
    by simp [coming, start, nextItem], by simp [coming, start, nextItem]⟩
  obtain ⟨sym, b, hb, n, hn, -⟩ := (founded_start cfg).books.resting_eq_some.mp ho
  exact absurd hn (hbook sym b hb n)

/-! ## Steps of the QuickFIX thread -/

/-- A step that leaves the books and the open orders as they are, and does not bring in an
order. -/
lemma Synced.of_same (h : s.Synced) (hbooks : s'.engine.books = s.engine.books)
    (hopen : s'.openOrders = s.openOrders)
    (hcoming : ∀ item ∈ s'.coming, item ∈ s.coming ∨ ((∀ o, item ≠ .order o) ∧
      ∀ req, item = .replace req → RequestOk s.openOrders req)) : s'.Synced := by
  refine ⟨by rw [hbooks]; exact h.positive, by rw [hbooks, hopen]; exact h.agrees,
    fun o ho => ?_, fun req hr => ?_⟩
  · rw [hopen]
    rcases hcoming _ ho with ho | ⟨hne, -⟩
    · exact h.orders o ho
    · exact absurd rfl (hne o)
  · rw [hopen]
    rcases hcoming _ hr with hr | ⟨-, hok⟩
    · exact h.requests req hr
    · exact hok req rfl

/-- The orders that are on their way to the engine have ids of their own. -/
lemma Founded.coming_fresh (h : s.Founded) {o : Order} (ho : .order o ∈ s.coming) :
    restingLedger s.engine.books o.exchangeId = none := by
  by_contra hne
  obtain ⟨sym, b, hb, n, hn, hid⟩ := h.resting_iff.mp hne
  rcases List.mem_append.mp ho with ho | ho
  · exact h.queue.fresh o ho sym b hb n hn hid
  · -- the id of an order that has not been submitted is not known to the engine
    rcases nextItem_cases (Option.mem_toList.mp ho) with ⟨o', hh, heq⟩ | ⟨-, hne⟩
    · obtain rfl := WorkItem.order.inj heq
      exact (h.books.orders sym b hb n hn).2.2 o (by rw [hh]; rfl) hid
    · exact hne o rfl

/-- The orders that are still to come are others than the one that is taken. -/
lemma Founded.coming_ne (h : s.Founded) {o o' : Order} {queue : List WorkItem}
    (hq : s.queue = .order o' :: queue) (ho : .order o ∈ queue ++ (nextItem s.handler).toList) :
    o.exchangeId ≠ o'.exchangeId := by
  intro heq
  have hmem : .order o' ∈ s.queue := by rw [hq]; exact List.mem_cons_self
  rcases List.mem_append.mp ho with ho | ho
  · have hnodup := h.queue.nodup
    rw [hq] at hnodup
    exact (List.nodup_cons.mp hnodup).1 (mem_submittedIds.mpr ⟨o, ho, heq⟩)
  · rcases nextItem_cases (Option.mem_toList.mp ho) with ⟨o'', hh, ho''⟩ | ⟨-, hne⟩
    · obtain rfl := WorkItem.order.inj ho''
      exact (h.queue.known _ hmem).2 o (by rw [hh]; rfl) heq.symm
    · exact hne o rfl

lemma Synced.message (h : s.Synced) {session : SessionID} {msg : Message}
    (hok : s.ForwardsPositive (.message msg session))
    (hstep : s.step (.message msg session) = some s') : s'.Synced := by
  obtain ⟨hidle, rfl⟩ := step_message hstep
  have hcoming := coming_of_idle hidle
  rcases onMessage_cases s session msg with ⟨seq, sent, heq, -⟩ | ⟨m, o, rfl, ho, heq⟩ |
      ⟨m, req, rfl, hreq, heq⟩ | ⟨m, req, rfl, hreq, heq⟩
  · rw [heq]
    refine h.of_same rfl rfl fun item hi => Or.inl ?_
    rw [hcoming]
    simpa [coming, nextItem] using hi
  · rw [heq]
    refine h.of_same rfl rfl fun item hi => Or.inl ?_
    rw [hcoming]
    simpa [coming, nextItem] using hi
  · rw [heq]
    refine h.of_same rfl rfl fun item hi => ?_
    rcases List.mem_append.mp hi with hi | hi
    · exact Or.inl (by rw [hcoming]; exact hi)
    · obtain rfl := Option.some.inj (Option.mem_toList.mp hi)
      exact Or.inr ⟨by simp, by simp⟩
  · rw [heq]
    refine h.of_same rfl rfl fun item hi => ?_
    rcases List.mem_append.mp hi with hi | hi
    · exact Or.inl (by rw [hcoming]; exact hi)
    · obtain rfl := Option.some.inj (Option.mem_toList.mp hi)
      refine Or.inr ⟨by simp, fun req' hreq' => ?_⟩
      obtain rfl := WorkItem.replace.inj hreq'
      refine ⟨hok req (.replace hreq (congrArg Prod.snd heq)), fun a ha => ?_⟩
      -- the gateway has compared symbol and side with the open order
      obtain ⟨a₀, ha₀, hsame⟩ := FixGateway.settle_inv ha
      obtain ⟨hsymbol, hside⟩ := hreq.same a₀ ha₀
      exact ⟨hsame.symbol.trans hsymbol, hsame.side.trans hside⟩

lemma openOrders_activate (h : s.Founded) {o : Order} {session : SessionID}
    (hh : s.handler = .activate o session) :
    settle s.tasks ((s.gateway.activateOrder o).ackOrder o session).active
        = s.openOrders.put o.exchangeId o ∧
      noticesOf s.tasks ((s.gateway.activateOrder o).ackOrder o session).active
        = noticesOf s.tasks s.gateway.active := by
  have hpending : o ∈ s.handler.pending := by rw [hh]; rfl
  -- the order is not open yet, and no task looks it up
  have hnone : s.gateway.activeOrders.lookup o.exchangeId = none := by
    by_contra hne
    obtain ⟨o', ho'⟩ := Option.ne_none_iff_exists'.mp hne
    obtain ⟨-, hk | hk⟩ := h.maps.active _ _ ho'
    · exact hk.2 o hpending rfl
    · exact absurd (hh.symm.trans hk) (by simp)
  have htasks : ∀ t ∈ s.tasks, o.exchangeId ∉ t.ids := fun t ht hid =>
    (h.tasks t ht _ hid).2 o hpending rfl
  have hactive : ((s.gateway.activateOrder o).ackOrder o session).active
      = s.gateway.active.put o.exchangeId o := by
    have hinsert : StrMap.emplace s.gateway.activeOrders o.exchangeId o
        = s.gateway.activeOrders.insert o.exchangeId o :=
      if_neg fun hmem => AList.lookup_eq_none.mp hnone hmem
    exact (congrArg Ledger.ofAList hinsert).trans (Ledger.ofAList_insert _)
  rw [hactive]
  exact ⟨settle_put htasks, noticesOf_put htasks⟩

lemma Synced.activate (h : s.Synced) (hs : s.Founded) {o : Order} {session : SessionID}
    (hh : s.handler = .activate o session) :
    ({ s with
      gateway := (s.gateway.activateOrder o).ackOrder o session
      handler := .submit o } : System).Synced := by
  have hpending : o ∈ s.handler.pending := by rw [hh]; rfl
  have hopen : ({ s with
      gateway := (s.gateway.activateOrder o).ackOrder o session
      handler := .submit o } : System).openOrders = s.openOrders.put o.exchangeId o :=
    (openOrders_activate hs hh).1
  -- nothing that the engine knows has the id of the new order
  have hne : ∀ item ∈ s.queue, item.id ≠ o.exchangeId := fun item hi =>
    (hs.queue.known item hi).2 o hpending
  have hqueue : ∀ item ∈ s.queue, item ∈ s.coming := fun item hi => List.mem_append_left _ hi
  refine ⟨h.positive, ?_, fun o' ho' => ?_, fun req hr => ?_⟩
  · rw [hopen]
    refine h.agrees.of_eq fun id hid => Ledger.put_of_ne ?_
    rintro rfl
    obtain ⟨sym, b, hb, n, hn, hid⟩ := hs.resting_iff.mp hid
    exact (hs.books.orders sym b hb n hn).2.2 o hpending hid
  · rw [hopen]
    rcases List.mem_append.mp ho' with ho' | ho'
    · have hid : o'.exchangeId ≠ o.exchangeId := hne _ ho'
      rw [Ledger.put_of_ne hid]
      exact h.orders o' (hqueue _ ho')
    · obtain rfl := WorkItem.order.inj (Option.some.inj (Option.mem_toList.mp ho'))
      exact Ledger.put_self
  · rw [hopen]
    rcases List.mem_append.mp hr with hr | hr
    · have hid : req.origOrderId ≠ o.exchangeId := hne _ hr
      refine (h.requests req (hqueue _ hr)).mono fun a' ha' => ⟨a', ?_, .refl a'⟩
      rwa [Ledger.put_of_ne hid] at ha'
    · exact absurd (Option.mem_toList.mp hr) (by simp [nextItem])

lemma Synced.handle (h : s.Synced) (hs : s.Founded) (hstep : s.step .handle = some s') :
    s'.Synced := by
  rcases handle_cases hstep with ⟨o, session, hh, rfl⟩ | ⟨o, session, hh, rfl⟩ | ⟨item, hitem, rfl⟩
  · refine h.of_same rfl rfl fun item hi => Or.inl ?_
    simpa [coming, nextItem, hh] using hi
  · exact h.activate hs hh
  · refine h.of_same rfl rfl fun item' hi => Or.inl ?_
    rw [coming_of_idle rfl] at hi
    rw [coming, hitem]
    exact hi

/-! ### What an item meets when it is taken from the queue -/

lemma Synced.active_agrees (h : s.Synced) (ht : s.tasks = []) :
    Agrees s.gateway.active (restingLedger s.engine.books) := by
  rw [← openOrders_of_no_tasks ht]
  exact h.agrees

lemma Synced.replace_positive (h : s.Synced) {item : WorkItem} (hmem : item ∈ s.queue) :
    ∀ req, item = .replace req → 0 < req.newQty := by
  rintro req rfl
  exact (h.requests req (mem_coming_of_queue hmem)).positive

/-- A new order that is processed is open, with all of its quantity. -/
lemma Synced.order_open (h : s.Synced) (hs : s.Founded) (ht : s.tasks = []) {item : WorkItem}
    (hmem : item ∈ s.queue) :
    ∀ o, item = .order o → s.gateway.active o.exchangeId = some o ∧ o.leavesQty = o.qty := by
  rintro o rfl
  rw [← openOrders_of_no_tasks ht]
  exact ⟨h.orders o (mem_coming_of_queue hmem), (hs.queue.qty o hmem).1⟩

/-- A replace request that is processed has the symbol and the side of the open order. -/
lemma Synced.replace_same (h : s.Synced) (ht : s.tasks = []) {item : WorkItem}
    (hmem : item ∈ s.queue) :
    ∀ req, item = .replace req → ∀ a, s.gateway.active req.origOrderId = some a →
      a.symbol = req.symbol ∧ a.side = req.side := by
  rintro req rfl a ha
  rw [← openOrders_of_no_tasks ht] at ha
  exact (h.requests req (mem_coming_of_queue hmem)).same a ha

lemma Synced.processed (h : s.Synced) (hs : s.Founded) {item : WorkItem} (hmem : item ∈ s.queue)
    {b : OrderBook} (hb : s.engine.books.lookup item.symbol = some b) :
    Processed (restingLedger s.engine.books) item (processIn b item).2
      (restingLedger (s.engine.books.insert item.symbol (processIn b item).1)) :=
  hs.processed hmem hb (h.positive _ b hb) (h.replace_positive hmem)

lemma Synced.take (h : s.Synced) (hs : s.Founded) {item : WorkItem} {queue : List WorkItem}
    {b : OrderBook} (ht : s.tasks = []) (hq : s.queue = item :: queue)
    (hb : s.engine.books.lookup item.symbol = some b) :
    ({ s with
      engine := { s.engine with books := s.engine.books.insert item.symbol (processIn b item).1 }
      queue := queue
      tasks := (processIn b item).2.flatMap Callback.tasks } : System).Synced := by
  have hmem : item ∈ s.queue := by rw [hq]; exact List.mem_cons_self
  have hactive := openOrders_of_no_tasks ht
  have hprocessed := h.processed hs hmem hb
  have hcoming : ∀ item', item' ∈ queue ++ (nextItem s.handler).toList → item' ∈ s.coming := by
    intro item' hi
    rw [coming, hq]
    exact List.mem_cons_of_mem _ hi
  refine ⟨fun sym b' hb' => ?_, hprocessed.agrees (h.active_agrees ht) (h.order_open hs ht hmem),
    fun o ho => ?_, fun req hr => ?_⟩
  · rcases lookup_processed hb' with ⟨-, rfl⟩ | ⟨-, hb'⟩
    · exact (h.positive _ b hb).processIn (hs.books.wf _ b hb)
        fun req hr _ => h.replace_positive hmem req hr
    · exact h.positive sym b' hb'
  · -- the orders that are still to come are others than the one of the item
    have hne : ∀ o', item = .order o' → o.exchangeId ≠ o'.exchangeId := by
      rintro o' rfl
      exact hs.coming_ne hq ho
    have huntouched := hprocessed.untouched (A := s.gateway.active)
      (hs.coming_fresh (hcoming _ ho)) hne
    rw [openOrders, huntouched.1, ← hactive]
    exact h.orders o (hcoming _ ho)
  · refine (h.requests req (hcoming _ hr)).mono fun a' ha' => ?_
    rw [hactive]
    exact FixGateway.settle_inv ha'

lemma Synced.engine (h : s.Synced) (hs : s.Founded) (hset : s.TaskSettles .engine)
    (hstep : s.step .engine = some s') : s'.Synced := by
  rcases engineStep_cases hstep with ⟨t, ts, ht, rfl⟩ | ⟨ht, item, queue, b, hq, hb, rfl⟩
  · exact h.of_same rfl (openOrders_task hset ht) fun item hi => Or.inl hi
  · exact h.take hs ht hq hb

/-- A new book is empty. -/
lemma resting_registerSymbol (hs : s.Founded) {symbol : String}
    (hstep : s.step (.registerSymbol symbol) = some s') :
    restingLedger s'.engine.books = restingLedger s.engine.books := by
  have hs' := hs.step hstep
  obtain ⟨e, he, rfl⟩ := step_registerSymbol hstep
  obtain ⟨hlookup, -, -⟩ := MatchingEngine.registerSymbol_books he
  funext id
  refine Option.ext fun o => ?_
  rw [hs'.books.resting_eq_some, hs.books.resting_eq_some]
  constructor
  · rintro ⟨sym, b, hb, n, hn, ho⟩
    rcases hlookup sym with hsame | ⟨-, -, hnew⟩
    · exact ⟨sym, b, hsame.symm.trans hb, n, hn, ho⟩
    · obtain rfl := Option.some.inj (hb.symm.trans hnew)
      exact absurd hn (by simp [OrderBook.init, OrderBook.nodes])
  · rintro ⟨sym, b, hb, n, hn, ho⟩
    rcases hlookup sym with hsame | ⟨-, hnone, -⟩
    · exact ⟨sym, b, hsame.trans hb, n, hn, ho⟩
    · rw [hb] at hnone
      exact absurd hnone (by simp)

lemma Synced.registerSymbol (h : s.Synced) (hs : s.Founded) {symbol : String}
    (hstep : s.step (.registerSymbol symbol) = some s') : s'.Synced := by
  have hledger := resting_registerSymbol hs hstep
  obtain ⟨e, he, rfl⟩ := step_registerSymbol hstep
  obtain ⟨hlookup, -, -⟩ := MatchingEngine.registerSymbol_books he
  refine ⟨fun sym b hb => ?_, ?_, h.orders, h.requests⟩
  · rcases hlookup sym with hsame | ⟨-, -, hnew⟩
    · exact h.positive sym b (hsame.symm.trans hb)
    · obtain rfl := Option.some.inj (hb.symm.trans hnew)
      simp [OrderBook.Positive, OrderBook.init, OrderBook.nodes]
  · rw [hledger]
    exact h.agrees

/-- **One step keeps the open orders in agreement with the books.** -/
theorem Synced.step (h : s.Synced) (hs : s.Founded) {a : Action} (hset : s.TaskSettles a)
    (hok : s.ForwardsPositive a) (hstep : s.step a = some s') : s'.Synced := by
  cases a with
  | message msg session => exact h.message hok hstep
  | logon session =>
    obtain ⟨-, rfl⟩ := step_logon hstep
    exact h.of_same rfl rfl fun item hi => Or.inl hi
  | handle => exact h.handle hs hstep
  | engine => exact h.engine hs hset hstep
  | persist =>
    obtain ⟨p, p', -, -, rfl⟩ := step_persist hstep
    exact h.of_same rfl rfl fun item hi => Or.inl hi
  | registerSymbol symbol => exact h.registerSymbol hs hstep

/-- **Every run whose replaces carry positive quantities keeps the open orders in agreement
with the books.** -/
theorem synced_of_run {cfg : Config} {ok : System → Action → Prop} {as : List Action}
    (hok : ∀ s a, ok s a → s.ForwardsPositive a) (h : RunTo cfg ok as s) : s.Synced :=
  h.invariant (synced_start cfg) fun _ _ _ _ hrun hs hoka hstep =>
    hs.step (sound_of_run hrun).founded ((sound_of_run hrun).taskSettles _) (hok _ _ hoka) hstep

end System

end FixExchange
