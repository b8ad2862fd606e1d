/-
# Time priority in the feed

A subscriber that keeps queues is told by `on_replace` whether a replaced order has kept its
place.  The publisher compares the prices only, so that an order that goes to the end of the
queue of its price because it is not shrunk is announced as one that is replaced in place
(`raised_in_place`).  A replace is announced as it was done when it moves its order to another
price, shrinks it, or finds it at the end of its queue (`tells_priority_iff`), and as long as
every replace is of this kind the subscriber has the queues of the books
(`feed_keeps_queues`).
-/
import FixExchange.Engine.Places
import FixExchange.System.Feed
import FixExchange.System.Priority
import FixExchange.Ui.LevelQueues

namespace FixExchange

/-- A replace that stays at the price of its order and does not shrink it finds the order at the
end of its queue. -/
def OrderBook.TellsPlace (b : OrderBook) (req : ReplaceRequest) : Prop :=
  ∀ n ∈ b.nodes, n.order.exchangeId = req.origOrderId → req.newPrice = n.order.price →
    n.order.leavesQty ≤ req.newQty → b.IsLast n.order

instance (b : OrderBook) (req : ReplaceRequest) : Decidable (b.TellsPlace req) :=
  List.decidableBAll _ _

namespace OrderBook

variable {b : OrderBook} {n : Node} {newPrice : Price} {newQty : ℤ} {keys : List String}

/-- **The queues after a replace**, when those before have the order of a list of ids, and the
replace is announced as it is done. -/
theorem queue_replaced (h : b.Wf) (hk : b.Keyed) (hn : n ∈ b.nodes)
    (hqueues : ∀ side p, (b.queue side p).Sublist keys)
    (htells : newPrice = n.order.price → n.order.leavesQty ≤ newQty → b.IsLast n.order)
    (side : Char) (p : Price) :
    ((b.replace n.order.exchangeId newPrice newQty).book.queue side p).Sublist
      (LevelQueues.sendBack keys
        (if n.order.price = newPrice then none else some n.order.exchangeId)) := by
  by_cases hout : newPrice = n.order.price ∧ newQty < n.order.leavesQty
  · -- the order is shrunk in place
    obtain ⟨rfl, hqty⟩ := hout
    rw [if_pos rfl, queue_shrink h hk hn hqty]
    exact hqueues side p
  obtain ⟨q, hq, hcases⟩ := queue_replace_out h hk hn hout side p
  have hback : q.Sublist (keys.filter fun id => id ≠ n.order.exchangeId) :=
    hq.trans ((hqueues side p).filter _)
  split_ifs with hprice
  · rcases hcases with hsame | ⟨hside, rfl, hconcat⟩
    · rw [hsame]
      exact hback.trans List.filter_sublist
    · -- the order has been the last one of the queue
      have hlast : (b.queue side n.order.price).getLast? = some n.order.exchangeId := by
        rw [← queue_congr hside]
        exact htells hprice.symm (not_lt.mp fun hqty => hout ⟨hprice.symm, hqty⟩)
      obtain ⟨l, hl⟩ := List.getLast?_eq_some_iff.mp hlast
      rw [hprice] at hl
      rw [hconcat]
      refine List.Sublist.trans ?_ (hqueues side newPrice)
      rw [hl, List.filter_append] at hq
      rw [hl]
      simp only [ne_eq, not_true_eq_false, decide_false, List.filter_cons_of_neg,
        Bool.false_eq_true, not_false_eq_true, List.filter_nil, List.append_nil] at hq
      exact (hq.trans List.filter_sublist).append (List.Sublist.refl _)
  · rcases hcases with hsame | ⟨-, -, hconcat⟩
    · rw [hsame]
      exact hback.trans (List.sublist_append_left _ _)
    · rw [hconcat]
      exact hback.append (List.Sublist.refl _)

/-- A replace of a resting order is successful. -/
lemma onReplace_found (h : b.Wf) (hk : b.Keyed) (hn : n ∈ b.nodes) {req : ReplaceRequest}
    (hid : n.order.exchangeId = req.origOrderId) (hq : 0 < req.newQty) :
    ∃ k, .onReplace req true k ∈ (processIn b (.replace req)).2 := by
  have hvalue : 0 ≤ (b.replace req.origOrderId req.newPrice req.newQty).value := by
    rcases h.replace_eq req.origOrderId req.newPrice req.newQty with
      ⟨hnone, -⟩ | ⟨m, hm, hmid, ⟨-, -, hr⟩ | ⟨-, hr⟩⟩
    · exact absurd hid ((hk.lookup_eq_none_iff h).mp hnone n hn)
    · rw [hr]
      exact hq.le
    · have hwf := h.unlink hm
      rw [hmid] at hwf
      rw [hr]
      exact add_value_nonneg hwf hq.le
  refine ⟨(b.replace req.origOrderId req.newPrice req.newQty).value, ?_⟩
  simp only [processIn, processReplace, ge_iff_le, hvalue, decide_true]
  exact List.mem_append_right _ (List.mem_singleton.mpr rfl)

/-- A replace of an order that does not rest does nothing. -/
lemma replace_notFound (h : b.Wf) (hk : b.Keyed) {id : String}
    (hid : ∀ n ∈ b.nodes, n.order.exchangeId ≠ id) (p : Price) (q : ℤ) :
    b.replace id p q = ⟨b, -1, []⟩ := by
  rw [replace, (hk.lookup_eq_none_iff h).mpr hid]

end OrderBook

/-! ## The notices for an item -/

namespace Processed

variable {A R R' : OrderLedger} {cbs : List Callback}

/-- An order is announced as rested behind its fills, or not at all. -/
lemma order_notices {o : Order} (h : Processed R (.order o) cbs R') :
    ∃ (fs : List FillPair) (last : Option Notice),
      noticesOf (cbs.flatMap Callback.tasks) A
        = fs.map (fun f => Notice.filled f.maker f.taker) ++ last.toList ∧
      ∀ n ∈ last, n.joins = some o.exchangeId := by
  cases h with
  | killed fresh => exact ⟨[], none, rfl, by simp⟩
  | @matched o left fs last L₁ R' fresh fills unfilled settled =>
    rw [noticesOf_calls, noticesOf_fillTasks]
    cases settled with
    | silent h => exact ⟨fs, none, rfl, by simp⟩
    | cancelled h => exact ⟨fs, none, rfl, by simp⟩
    | rested hleft type tif =>
      refine ⟨fs, some (.rested o left), rfl, fun n hn => ?_⟩
      rw [← Option.some.inj hn]
      rfl

lemma cancel_notices {req : CancelRequest} (h : Processed R (.cancel req) cbs R') :
    ∃ last : Option Notice, noticesOf (cbs.flatMap Callback.tasks) A = last.toList ∧
      ∀ n ∈ last, n.joins = none := by
  cases h with
  | notCancelled => exact ⟨none, rfl, by simp⟩
  | @cancelled req m hm =>
    refine ⟨(A req.origOrderId).map fun o => .cancelled req.origOrderId o, ?_, fun n hn => ?_⟩
    · cases hA : A req.origOrderId <;> simp [Callback.tasks, Task.notices, hA]
    · obtain ⟨o, -, rfl⟩ := Option.map_eq_some_iff.mp hn
      rfl

/-- A replace that leaves something of its order is announced behind its fills, with the price
at which the order has rested. -/
lemma replaced_notices {req : ReplaceRequest} {k : ℤ} (h : Processed R (.replace req) cbs R')
    (hA : Agrees A R) (hcall : .onReplace req true k ∈ cbs) (hk : k ≠ 0) :
    ∃ (m : Order) (fs : List FillPair), R req.origOrderId = some m ∧
      noticesOf (cbs.flatMap Callback.tasks) A
        = fs.map (fun f => Notice.filled f.maker f.taker) ++ [.replaced req k m.price] := by
  cases h with
  | notReplaced => exact absurd (List.mem_singleton.mp hcall) (by simp)
  | @shrunk req m hm price positive =>
    obtain ⟨a, ha, hmirrors⟩ := hA _ _ hm
    obtain ⟨-, -, rfl⟩ := Callback.onReplace.inj (List.mem_singleton.mp hcall)
    refine ⟨m, [], hm, ?_⟩
    simp [Callback.tasks, Task.notices, ha, hmirrors.price]
  | @requeued req m left fs L₁ hm fills unfilled positive nonneg =>
    obtain ⟨a, ha, hmirrors⟩ := hA _ _ hm
    obtain rfl : k = left := by
      rcases List.mem_append.mp hcall with hmem | hmem
      · obtain ⟨f, -, heq⟩ := OrderBook.mem_fillCallbacks.mp hmem
        exact absurd heq (by simp)
      · exact (Callback.onReplace.inj (List.mem_singleton.mp hmem)).2.2
    have htaker := fills.settle_taker_of_pos Ledger.drop_self (lt_of_le_of_ne nonneg hk.symm) ha
    refine ⟨m, fs, hm, ?_⟩
    rw [noticesOf_calls, noticesOf_fillTasks]
    simp [Callback.tasks, Task.notices, htaker, hmirrors.price]

/-- A replace that keeps its order in the book leaves something of it. -/
lemma replaced_left {req : ReplaceRequest} {k : ℤ} (h : Processed R (.replace req) cbs R')
    (hcall : .onReplace req true k ∈ cbs) (hstays : R' req.origOrderId ≠ none) : k ≠ 0 := by
  rintro rfl
  cases h with
  | notReplaced => exact absurd (List.mem_singleton.mp hcall) (by simp)
  | shrunk hm price positive =>
    exact positive.ne (Callback.onReplace.inj (List.mem_singleton.mp hcall)).2.2
  | @requeued req m left fs L₁ hm fills unfilled positive nonneg =>
    rcases List.mem_append.mp hcall with hmem | hmem
    · obtain ⟨f, -, heq⟩ := OrderBook.mem_fillCallbacks.mp hmem
      exact absurd heq (by simp)
    · obtain ⟨-, -, rfl⟩ := Callback.onReplace.inj (List.mem_singleton.mp hmem)
      exact hstays (fills.eq_none Ledger.drop_self)

/-- The queues of a book and the ids of a subscriber, both after an item, have the order of one
list.  It has the ids that are not in the book in their order. -/
theorem frame {b : OrderBook} {item : WorkItem} (h : Processed R item (processIn b item).2 R')
    (hA : Agrees A R) (hwf : b.Wf) (hk : b.Keyed)
    (hrests : ∀ n ∈ b.nodes, R n.order.exchangeId = some n.order)
    (hopen : ∀ req, .onReplace req true 0 ∉ (processIn b item).2)
    (hpositive : ∀ req, item = .replace req → 0 < req.newQty)
    (htells : ∀ req, item = .replace req → b.TellsPlace req) {q : LevelQueues}
    (hnodup : q.keys.Nodup) (hfresh : ∀ o, item = .order o → o.exchangeId ∉ q.keys)
    (hqueues : ∀ side p, (b.queue side p).Sublist q.keys) :
    ∃ ids : List String, ids.Nodup ∧
      (((noticesOf ((processIn b item).2.flatMap Callback.tasks) A).foldl Notice.move q).keys.Sublist
        ids) ∧
      (∀ side p, ((processIn b item).1.queue side p).Sublist ids) ∧
      ∀ l : List String, l.Sublist q.keys →
        (∀ id ∈ l, ∀ n ∈ b.nodes, n.order.exchangeId ≠ id) → l.Sublist ids := by
  cases item with
  | order o =>
    obtain ⟨fs, last, hnotices, hlast⟩ := h.order_notices (A := A)
    have hmoves := Notice.keys_moves fs last q
    have hids : (q.keys ++ [o.exchangeId]).Nodup := by
      rw [← List.concat_eq_append]
      exact hnodup.concat (hfresh o rfl)
    have hback : (LevelQueues.sendBack q.keys (last.bind Notice.joins)).Sublist
        (q.keys ++ [o.exchangeId]) := by
      cases last with
      | none => exact List.sublist_append_left _ _
      | some n =>
        rw [Option.bind_some, hlast n rfl]
        exact List.filter_sublist.append (List.Sublist.refl _)
    refine ⟨q.keys ++ [o.exchangeId], hids, ?_, fun side p => ?_, fun l hl _ =>
      hl.trans (List.sublist_append_left _ _)⟩
    · rw [hnotices]
      exact hmoves.trans hback
    · rcases OrderBook.processOrder_book b o with hb | hb
      · rw [processIn, hb]
        exact (hqueues side p).trans (List.sublist_append_left _ _)
      · obtain ⟨l, hl, hsame | ⟨-, -, hconcat⟩⟩ := OrderBook.queue_add hwf o side p
        · rw [processIn, hb, hsame]
          exact (hl.trans (hqueues side p)).trans (List.sublist_append_left _ _)
        · rw [processIn, hb, hconcat]
          exact (hl.trans (hqueues side p)).append (List.Sublist.refl _)
  | cancel req =>
    obtain ⟨last, hnotices, hlast⟩ := h.cancel_notices (A := A)
    have hmoves := Notice.keys_moves [] last q
    have hnone : last.bind Notice.joins = none := by
      cases last with
      | none => rfl
      | some n => exact hlast n rfl
    rw [hnone] at hmoves
    refine ⟨q.keys, hnodup, ?_, fun side p => ?_, fun l hl _ => hl⟩
    · rw [hnotices]
      exact hmoves
    · exact (OrderBook.queue_cancel hwf req.origOrderId side p).trans (hqueues side p)
  | replace req =>
    by_cases hfound : ∃ n ∈ b.nodes, n.order.exchangeId = req.origOrderId
    · obtain ⟨n, hn, hid⟩ := hfound
      obtain ⟨k, hcall⟩ := OrderBook.onReplace_found hwf hk hn hid (hpositive req rfl)
      have hk0 : k ≠ 0 := by
        rintro rfl
        exact hopen req hcall
      obtain ⟨m, fs, hm, hnotices⟩ := h.replaced_notices hA hcall hk0
      obtain rfl : n.order = m := Option.some.inj ((hrests n hn).symm.trans (hid ▸ hm))
      have hmoves := Notice.keys_moves fs (some (.replaced req k n.order.price)) q
      have hqueue := OrderBook.queue_replaced hwf hk hn hqueues (htells req rfl n hn hid)
      rw [hid] at hqueue
      refine ⟨_, LevelQueues.nodup_sendBack hnodup _, ?_, hqueue, fun l hl hl' => ?_⟩
      · rw [hnotices]
        exact hmoves
      · split_ifs
        · exact hl
        · -- the order is not in the list
          have hself : (l.filter fun id => id ≠ req.origOrderId) = l :=
            List.filter_eq_self.mpr fun id hmem =>
              decide_eq_true fun heq => hl' id hmem n hn (hid.trans heq.symm)
          have hsub := hl.filter fun id => decide (id ≠ req.origOrderId)
          rw [hself] at hsub
          exact hsub.trans (List.sublist_append_left _ _)
    · have hnot : ∀ n ∈ b.nodes, n.order.exchangeId ≠ req.origOrderId := fun n hn hid =>
        hfound ⟨n, hn, hid⟩
      have hitem : processIn b (.replace req) = (b, [.onReplace req false (-1)]) := by
        simp only [processIn, processReplace, OrderBook.replace_notFound hwf hk hnot]
        rfl
      rw [hitem]
      exact ⟨q.keys, hnodup, List.Sublist.refl _, hqueues, fun l hl _ => hl⟩

end Processed

/-! ## The subscriber as a copy -/

/-- What a subscriber that keeps queues has after every packet sent. -/
def levelQueues (m : MarketDataPublisher) : LevelQueues := m.sent.foldl LevelQueues.receive []

lemma queues_nil : Queues [] Ledger.empty := by
  refine ⟨fun id o ho => absurd ho (by simp [Ledger.empty]), List.nodup_nil, fun id level => ?_⟩
  simp [Ledger.empty]

/-- The queues of a subscriber are a copy of the book. -/
def queueFeed : Follower Order.TextsFit LevelQueues where
  read m _ := levelQueues m
  apply q n := n.enqueue q
  shows := Queues
  read_notice m _ n := n.foldl_publish_queues m []
  read_applyNext _ _ _ _ := rfl
  read_symbol _ _ _ := rfl
  shows_start _ _ := queues_nil
  shows_notice _ _ _ h hfits htexts := h.enqueue hfits htexts

namespace System

variable {s s' : System} {a : Action} {as : List Action} {cfg : Config}

/-- An item is announced as it is done, when it is a replace. -/
def ItemTellsPlace (s : System) : WorkItem → Prop
  | .replace req => ∀ b ∈ s.engine.books.lookup req.symbol, b.TellsPlace req
  | .order _ | .cancel _ => True

instance (s : System) (item : WorkItem) : Decidable (s.ItemTellsPlace item) :=
  match item with
  | .replace _ => Option.decidableForallMem _
  | .order _ | .cancel _ => instDecidableTrue

/-- The item that the engine takes from the queue is announced as it is done. -/
def TellsPlace (s : System) : Action → Prop
  | .engine => s.tasks = [] → ∀ item ∈ s.queue.head?, s.ItemTellsPlace item
  | .message _ _ | .logon _ | .handle | .persist | .registerSymbol _ => True

instance (s : System) (a : Action) : Decidable (s.TellsPlace a) :=
  match a with
  | .engine =>
    inferInstanceAs (Decidable (s.tasks = [] → ∀ item ∈ s.queue.head?, s.ItemTellsPlace item))
  | .message _ _ | .logon _ | .handle | .persist | .registerSymbol _ => instDecidableTrue

/-- The steps of a run in which the feed keeps up, and announces every replace as it is done. -/
structure Ranked (s : System) (a : Action) : Prop where
  fed : s.Fed a
  tells : s.TellsPlace a

instance (s : System) (a : Action) : Decidable (s.Ranked a) :=
  decidable_of_iff (s.Fed a ∧ s.TellsPlace a) ⟨fun ⟨hf, ht⟩ => ⟨hf, ht⟩, fun ⟨hf, ht⟩ => ⟨hf, ht⟩⟩

/-- The queues of the books have the order of the ids of a subscriber, as they will be. -/
def InFeedOrder (s : System) : Prop :=
  ∀ sym b, s.engine.books.lookup sym = some b →
    ∀ side p, (b.queue side p).Sublist (s.copy queueFeed).keys

lemma queues_of_run (h : RunTo cfg Fed as s) : Queues (s.copy queueFeed) s.openBook :=
  following_of_run (F := queueFeed) (h.mono fun _ _ h => h.textsFit)

/-- What is queued are the orders that rest, at their levels. -/
lemma mem_copy_queues (h : RunTo cfg Fed as s) {id : String} {level : FeedLevel} :
    (id, level) ∈ s.copy queueFeed ↔ ∃ sym b, s.engine.books.lookup sym = some b ∧
      ∃ n ∈ b.nodes, n.order.exchangeId = id ∧ n.order.feedLevel = level := by
  have hs := sound_of_run h
  have hsync := synced_of_run
    (fun _ _ h => forwardsPositive_of_replacesPositive h.followed.positive) h
  rw [(queues_of_run h).mem]
  constructor
  · rintro ⟨a, ha, rfl⟩
    obtain ⟨ha, hrests⟩ := Ledger.restrict_eq_some.mp ha
    obtain ⟨o, ho⟩ := Option.isSome_iff_exists.mp hrests
    obtain ⟨a', ha', hmirrors⟩ := hsync.agrees id o ho
    obtain rfl := Option.some.inj (ha.symm.trans ha')
    obtain ⟨sym, b, hb, n, hn, rfl, hid⟩ := hs.books.resting_eq_some.mp ho
    refine ⟨sym, b, hb, n, hn, hid, ?_⟩
    rw [Order.feedLevel, Order.feedLevel, hmirrors.symbol, hmirrors.side, hmirrors.price]
  · rintro ⟨sym, b, hb, n, hn, hid, rfl⟩
    have ho := hs.books.resting_eq_some.mpr ⟨sym, b, hb, n, hn, rfl, hid⟩
    obtain ⟨a, ha, hmirrors⟩ := hsync.agrees id n.order ho
    refine ⟨a, Ledger.restrict_eq_some.mpr ⟨ha, by rw [ho]; rfl⟩, ?_⟩
    rw [Order.feedLevel, Order.feedLevel, hmirrors.symbol, hmirrors.side, hmirrors.price]

lemma mem_copy_keys (h : RunTo cfg Fed as s) {id : String} :
    id ∈ (s.copy queueFeed).keys ↔ ∃ sym b, s.engine.books.lookup sym = some b ∧
      ∃ n ∈ b.nodes, n.order.exchangeId = id := by
  rw [LevelQueues.keys, List.mem_map]
  constructor
  · rintro ⟨⟨id', level⟩, hmem, rfl⟩
    obtain ⟨sym, b, hb, n, hn, hid, -⟩ := (mem_copy_queues h).mp hmem
    exact ⟨sym, b, hb, n, hn, hid⟩
  · rintro ⟨sym, b, hb, n, hn, hid⟩
    exact ⟨_, (mem_copy_queues h).mpr ⟨sym, b, hb, n, hn, hid, rfl⟩, rfl⟩

/-- Taking an item keeps the order of the ids. -/
lemma InFeedOrder.take (h : s.InFeedOrder) (hrun : RunTo cfg Fed as s) (hok : s.Ranked .engine)
    {item : WorkItem} {queue : List WorkItem} {b : OrderBook} (ht : s.tasks = [])
    (hq : s.queue = item :: queue) (hb : s.engine.books.lookup item.symbol = some b)
    (hstep : s.step .engine = some s')
    (hs' : s' = { s with
      engine := { s.engine with books := s.engine.books.insert item.symbol (processIn b item).1 }
      queue := queue
      tasks := (processIn b item).2.flatMap Callback.tasks }) : s'.InFeedOrder := by
  have hs := sound_of_run hrun
  have hsync := synced_of_run
    (fun _ _ h => forwardsPositive_of_replacesPositive h.followed.positive) hrun
  have hrun' := hrun.snoc hok.fed hstep
  have hitem : item ∈ s.queue := by rw [hq]; exact List.mem_cons_self
  have hprocessed := hsync.processed hs.founded hitem hb
  have hqueues := queues_of_run hrun
  have hquiet := hok.fed.followed.quiet
  -- the ids are moved as the notices say
  have hfollows := hsync.follows_take hs hquiet ht hq hb
  have htexts : ∀ o k, .rested o k ∈ noticesOf ((processIn b item).2.flatMap Callback.tasks)
      s.gateway.active → o.TextsFit := by
    intro o k hrested
    obtain rfl := hprocessed.eq_of_rested hrested
    exact good_of_incoming (fun _ _ h => h.textsFit.accepting) hrun o (Or.inl hitem)
  have hcopy : s'.copy queueFeed
      = (noticesOf ((processIn b item).2.flatMap Callback.tasks) s.gateway.active).foldl
          Notice.move (s.copy queueFeed) := by
    rw [← hqueues.foldl_enqueue hfollows htexts, copy, copy, hs', ht, noticesOf_nil,
      List.foldl_nil]
    rfl
  have htells : ∀ req, item = .replace req → b.TellsPlace req := by
    rintro req rfl
    exact hok.tells ht (.replace req) (by rw [hq]; rfl) b hb
  have hfresh : ∀ o, item = .order o → o.exchangeId ∉ (s.copy queueFeed).keys := by
    rintro o rfl hmem
    obtain ⟨sym, b₀, hb₀, n, hn, hid⟩ := (mem_copy_keys hrun).mp hmem
    exact hs.queue.fresh o hitem sym b₀ hb₀ n hn hid
  obtain ⟨ids, hids, hkeys, hbook, hothers⟩ := hprocessed.frame (hsync.active_agrees ht)
    (hs.books.wf _ b hb) (hs.books.keyed _ b hb)
    (fun n hn => hs.books.resting_eq_some.mpr ⟨_, b, hb, n, hn, rfl, rfl⟩)
    (hsync.onReplace_open hs hquiet ht hq hb) (hsync.replace_positive hitem) htells
    hqueues.nodup hfresh (h _ b hb)
  rw [← hcopy] at hkeys
  intro sym b' hb' side p
  refine Sublists.sublist_of_mem hids ?_ hkeys fun id hid => ?_
  · rw [hs'] at hb'
    rcases lookup_processed hb' with ⟨rfl, rfl⟩ | ⟨hsym, hb'⟩
    · exact hbook side p
    · -- the orders of another book are not in the book
      refine hothers _ (h sym b' hb' side p) fun id hid n hn hnid => hsym ?_
      obtain ⟨m, hm, -, -, hmid⟩ := (OrderBook.mem_queue (hs.books.wf sym b' hb')).mp hid
      have hmrests := hs.books.resting_eq_some.mpr ⟨sym, b', hb', m, hm, rfl, hmid⟩
      have hnrests := hs.books.resting_eq_some.mpr ⟨_, b, hb, n, hn, rfl, hnid⟩
      have hsame : m.order = n.order := Option.some.inj (hmrests.symm.trans hnrests)
      rw [← (hs.books.orders sym b' hb' m hm).1, hsame, (hs.books.orders _ b hb n hn).1]
  · obtain ⟨n, hn, -, -, hnid⟩ :=
      (OrderBook.mem_queue ((sound_of_run hrun').books.wf sym b' hb')).mp hid
    exact (mem_copy_keys hrun').mpr ⟨sym, b', hb', n, hn, hnid⟩

/-- **One step keeps the order of the ids.** -/
theorem InFeedOrder.step (h : s.InFeedOrder) (hrun : RunTo cfg Fed as s) (hok : s.Ranked a)
    (hstep : s.step a = some s') : s'.InFeedOrder := by
  by_cases ha : s.TakesNothing a
  · obtain ⟨hcopy, -⟩ := kept_step (F := queueFeed) (sound_of_run hrun) ha hstep
    intro sym b hb side p
    rw [hcopy]
    rcases books_kept ha hstep hb with hb | rfl
    · exact h sym b hb side p
    · rw [OrderBook.queue_init]
      exact List.nil_sublist _
  · obtain ⟨rfl, ht⟩ := Classical.not_imp.mp ha
    rcases engineStep_cases hstep with ⟨t, ts, ht', -⟩ | ⟨ht, item, queue, b, hq, hb, hs'⟩
    · exact absurd ht' (by rw [not_not.mp ht]; simp)
    · exact h.take hrun hok ht hq hb hstep hs'

lemma in_feed_order_of_run (h : RunTo cfg Ranked as s) : s.InFeedOrder := by
  refine h.invariant (I := InFeedOrder) ?_ fun as t a u hrun ih hok hstep =>
    ih.step (hrun.mono fun _ _ h => h.fed) hok hstep
  intro sym b hb side p
  rw [start, lookup_init_books] at hb
  split_ifs at hb
  rw [← Option.some.inj hb, OrderBook.queue_init]
  exact List.nil_sublist _

/-- **A subscriber keeps the queues of the books**, whenever the engine thread is between two
items, in every run in which every replace is announced as it is done. -/
theorem queues_are_kept (h : RunTo cfg Ranked as s) (ht : s.tasks = []) {sym : String}
    {b : OrderBook} (hb : s.engine.books.lookup sym = some b) (side : Char) (p : Price) :
    (levelQueues s.gateway.publisher).queueOf
      ⟨sym, MarketDataPublisher.packetSide side, p⟩ = b.queue side p := by
  have hrun := h.mono fun _ _ h => h.fed
  have hs := sound_of_run hrun
  have hcopy : s.copy queueFeed = levelQueues s.gateway.publisher := by
    rw [copy, ht, noticesOf_nil, List.foldl_nil]
    rfl
  have hside : ∀ {c : Char}, MarketDataPublisher.packetSide c = MarketDataPublisher.packetSide side ↔
      (c = '1' ↔ side = '1') := by
    intro c
    unfold MarketDataPublisher.packetSide
    split_ifs with h1 h2 h2 <;> simp [h1, h2]
  rw [← hcopy]
  refine Sublists.eq_of_mem_iff (queues_of_run hrun).nodup (LevelQueues.queueOf_sublist _ _)
    (in_feed_order_of_run h sym b hb side p) fun id => ?_
  rw [LevelQueues.mem_queueOf, mem_copy_queues hrun, OrderBook.mem_queue (hs.books.wf sym b hb)]
  constructor
  · rintro ⟨sym', b', hb', n, hn, hid, hlevel⟩
    obtain ⟨hsymbol, hsides, hprice⟩ := FeedLevel.mk.inj hlevel
    obtain rfl : sym' = sym := (hs.books.orders sym' b' hb' n hn).1.symm.trans hsymbol
    obtain rfl := Option.some.inj (hb'.symm.trans hb)
    exact ⟨n, hn, hside.mp hsides, hprice, hid⟩
  · rintro ⟨n, hn, hsides, rfl, hid⟩
    refine ⟨sym, b, hb, n, hn, hid, ?_⟩
    rw [Order.feedLevel, (hs.books.orders sym b hb n hn).1, hside.mpr hsides]

end System

/-! ## What a replace is announced as -/

/-- The events of the packets of a notice. -/
def Notice.eventTypes : Notice → List EventType
  | .filled _ _ => [.FillResting, .Trade]
  | .cancelled _ _ => [.Cancel]
  | .replaced req _ oldPrice =>
    if oldPrice = req.newPrice then [.ReplaceInPlace] else [.ReplaceDelete, .ReplaceNew]
  | .rested _ _ => [.NewOrder]

lemma Notice.publish_events (m : MarketDataPublisher) (n : Notice) :
    ∃ ps, (n.publish m).sent = m.sent ++ ps ∧ ps.map MdPacket.eventType = n.eventTypes := by
  cases n with
  | filled maker taker =>
    exact ⟨_, List.append_assoc _ _ _, rfl⟩
  | cancelled id order => exact ⟨_, rfl, rfl⟩
  | replaced req newLeavesQty oldPrice =>
    simp only [Notice.publish, MarketDataPublisher.onReplace, Notice.eventTypes]
    split_ifs
    · exact ⟨_, rfl, rfl⟩
    · exact ⟨_, List.append_assoc _ _ _, rfl⟩
  | rested order leavesQty => exact ⟨_, rfl, rfl⟩

/-- What notices send. -/
lemma Notice.foldl_publish_events (ns : List Notice) (m : MarketDataPublisher) :
    ∃ ps, (ns.foldl Notice.publish m).sent = m.sent ++ ps ∧
      ps.map MdPacket.eventType = ns.flatMap Notice.eventTypes := by
  induction ns generalizing m with
  | nil => exact ⟨[], (List.append_nil _).symm, rfl⟩
  | cons n ns ih =>
    obtain ⟨ps, hps, hevents⟩ := n.publish_events m
    obtain ⟨ps', hps', hevents'⟩ := ih (n.publish m)
    refine ⟨ps ++ ps', ?_, ?_⟩
    · rw [List.foldl_cons, hps', hps, List.append_assoc]
    · rw [List.map_append, hevents, hevents', List.flatMap_cons]

/-- What has been sent, as a copy. -/
def sentPackets : Follower (fun _ => True) MarketDataPublisher where
  read m _ := m
  apply m n := n.publish m
  shows _ _ := True
  read_notice _ _ _ := rfl
  read_applyNext _ _ _ _ := rfl
  read_symbol _ _ _ := rfl
  shows_start _ _ := trivial
  shows_notice _ _ _ _ _ _ := trivial

namespace System

variable {s s₁ t : System} {as : List Action} {cfg : Config}

/-- The events of replaces among the packets sent from a state to a later one. -/
def replaceEvents (s t : System) : List EventType :=
  ((t.gateway.publisher.sent.drop s.gateway.publisher.sent.length).map
    MdPacket.eventType).filter fun e => e ∈ [.ReplaceInPlace, .ReplaceDelete, .ReplaceNew]

/-- From `s` to `t` the engine thread processes a replace, of a resting order that stays in the
book. -/
structure Replacement (s t : System) (req : ReplaceRequest) (b : OrderBook) (n : Node) : Prop where
  idle : s.tasks = []
  next : s.queue.head? = some (.replace req)
  book : s.engine.books.lookup req.symbol = some b
  resting : n ∈ b.nodes
  id : n.order.exchangeId = req.origOrderId
  stays : ∃ m ∈ (b.replace req.origOrderId req.newPrice req.newQty).book.nodes,
    m.order.exchangeId = req.origOrderId
  /-- The engine takes the request, and runs its tasks; the other threads may take steps. -/
  done : ∃ s₁ as, s.step .engine = some s₁ ∧ Transition.Reaches step TakesNothing s₁ as t ∧
    t.tasks = []

/-- The feed tells the truth about the place of an order that is replaced: `ReplaceInPlace` is
sent exactly when it has kept it, and `ReplaceDelete` and `ReplaceNew` are sent exactly when it
has been sent to the end of a queue. -/
def TellsPriority (events : List EventType) (b b' : OrderBook) (o : Order) : Prop :=
  (events = [.ReplaceInPlace] ↔ b.KeepsPlaceOf b' o) ∧
    (events = [.ReplaceDelete, .ReplaceNew] ↔ b.SentBack b' o)

/-- What is sent once the tasks of an item have run. -/
lemma sent_of_taken {ok : System → Action → Prop} (hrun : RunTo cfg ok as s) {a : Action}
    (hstep : s.step a = some s₁) (hpublisher : s₁.gateway.publisher = s.gateway.publisher)
    {as' : List Action} (hrest : Transition.Reaches step TakesNothing s₁ as' t) (ht' : t.tasks = []) :
    t.gateway.publisher
      = (noticesOf s₁.tasks s₁.gateway.active).foldl Notice.publish s.gateway.publisher := by
  have hrun₁ : RunTo cfg (fun _ _ => True) (as ++ [a]) s₁ :=
    (hrun.mono fun _ _ _ => trivial).snoc trivial hstep
  have hkept : (∃ as, RunTo cfg (fun _ _ => True) as t) ∧
      t.copy sentPackets = s₁.copy sentPackets := by
    refine hrest.invariant (I := fun u => (∃ as, RunTo cfg (fun _ _ => True) as u) ∧
      u.copy sentPackets = s₁.copy sentPackets) ⟨⟨_, hrun₁⟩, rfl⟩ ?_
    rintro - u a v - ⟨⟨as, hu⟩, hcopy⟩ hok hstep
    exact ⟨⟨_, hu.snoc trivial hstep⟩,
      (kept_step (F := sentPackets) (sound_of_run hu) hok hstep).1.trans hcopy⟩
  have hcopy := hkept.2
  rw [copy, copy, ht', noticesOf_nil, List.foldl_nil] at hcopy
  rw [← hpublisher]
  exact hcopy

/-- What is sent about a replace. -/
lemma Replacement.events {req : ReplaceRequest} {b : OrderBook} {n : Node}
    (hrun : RunTo cfg (fun _ a => a.ReplacesPositive) as s) (h : s.Replacement t req b n) :
    s.replaceEvents t = if n.order.price = req.newPrice then [.ReplaceInPlace]
      else [.ReplaceDelete, .ReplaceNew] := by
  have hs := sound_of_run hrun
  have hsync := synced_of_run (fun _ _ h => forwardsPositive_of_replacesPositive h) hrun
  obtain ⟨queue, hq⟩ := List.head?_eq_some_iff.mp h.next
  obtain ⟨s₁, as', hstep, hrest, ht'⟩ := h.done
  have hmem : .replace req ∈ s.queue := by rw [hq]; exact List.mem_cons_self
  have hprocessed := hsync.processed hs.founded hmem h.book
  have hagrees := hsync.active_agrees h.idle
  have hwf := hs.books.wf _ b h.book
  obtain ⟨k, hcall⟩ := OrderBook.onReplace_found hwf (hs.books.keyed _ b h.book) h.resting h.id
    (hsync.replace_positive hmem req rfl)
  rcases engineStep_cases hstep with ⟨t', ts, ht, -⟩ | ⟨-, item, queue', b', hq', hb', rfl⟩
  · exact absurd ht (by rw [h.idle]; simp)
  obtain ⟨rfl, rfl⟩ := List.cons.inj (hq.symm.trans hq')
  obtain rfl := Option.some.inj (hb'.symm.trans h.book)
  -- the order is still in the book
  have hstays : restingLedger (s.engine.books.insert req.symbol (processIn b' (.replace req)).1)
      req.origOrderId ≠ none := by
    obtain ⟨m, hm, hid⟩ := h.stays
    have hfree : RunTo cfg (fun _ _ => True) as s := hrun.mono fun _ _ _ => trivial
    have hs₁ := sound_of_run (hfree.snoc trivial hstep)
    have hsome : restingLedger (s.engine.books.insert req.symbol
        (processIn b' (.replace req)).1) req.origOrderId = some m.order :=
      hs₁.books.resting_eq_some.mpr ⟨req.symbol, _, AList.lookup_insert _, m, hm, rfl, hid⟩
    rw [hsome]
    exact Option.some_ne_none _
  obtain ⟨m, fs, hm, hnotices⟩ :=
    hprocessed.replaced_notices hagrees hcall (hprocessed.replaced_left hcall hstays)
  obtain rfl : n.order = m := Option.some.inj
    ((hs.books.resting_eq_some.mpr ⟨_, b', h.book, n, h.resting, rfl, h.id⟩).symm.trans hm)
  have hsent := sent_of_taken hrun hstep rfl hrest ht'
  obtain ⟨ps, hps, hevents⟩ := Notice.foldl_publish_events
    (noticesOf ((processIn b' (.replace req)).2.flatMap Callback.tasks) s.gateway.active)
    s.gateway.publisher
  rw [replaceEvents, hsent, hps, List.drop_left, hevents, hnotices, List.flatMap_append,
    List.filter_append]
  -- fills are no replaces
  have hfills : ((fs.map fun f => Notice.filled f.maker f.taker).flatMap Notice.eventTypes).filter
      (fun e => e ∈ [EventType.ReplaceInPlace, .ReplaceDelete, .ReplaceNew]) = [] := by
    refine List.filter_eq_nil_iff.mpr fun e he => ?_
    obtain ⟨n, hn, he⟩ := List.mem_flatMap.mp he
    obtain ⟨f, -, rfl⟩ := List.mem_map.mp hn
    rcases List.mem_cons.mp he with rfl | he
    · decide
    · obtain rfl := List.mem_singleton.mp he
      decide
  rw [hfills, List.nil_append, List.flatMap_singleton, Notice.eventTypes]
  split_ifs <;> rfl

/-- **When the feed tells the truth about a replace**: when it moves its order to another price,
shrinks it, or finds it at the end of its queue. -/
theorem tells_priority_iff {req : ReplaceRequest} {b : OrderBook} {n : Node}
    (hrun : RunTo cfg (fun _ a => a.ReplacesPositive) as s) (h : s.Replacement t req b n) :
    TellsPriority (s.replaceEvents t) b
        (b.replace req.origOrderId req.newPrice req.newQty).book n.order ↔
      (req.newPrice = n.order.price → n.order.leavesQty ≤ req.newQty → b.IsLast n.order) := by
  have hs := sound_of_run hrun
  have hwf := hs.books.wf _ b h.book
  have hkeyed := hs.books.keyed _ b h.book
  have hstays := h.stays
  have hevents := h.events hrun
  rw [← h.id] at hstays ⊢
  rw [TellsPriority, OrderBook.keepsPlaceOf_replace hwf hkeyed h.resting hstays,
    OrderBook.sentBack_replace hwf hkeyed h.resting hstays, hevents]
  by_cases hprice : n.order.price = req.newPrice
  · simp only [hprice, if_true, true_and, forall_const, not_or, not_lt]
    constructor
    · rintro ⟨hkeeps, -⟩ hqty
      exact (hkeeps.mp trivial).resolve_left (not_lt.mpr hqty)
    · intro hlast
      by_cases hqty : req.newQty < n.order.leavesQty
      · simp [hqty]
      · simp [hlast (not_lt.mp hqty)]
  · simp [hprice, Ne.symm hprice]

/-- **Time priority in the feed**: what the feed says about one replace, in every run, and the
queues of a subscriber, in every run in which every replace is announced as it is done. -/
theorem feed_tells_priority (h : RunTo cfg (fun _ a => a.ReplacesPositive) as s) :
    (∀ t req b n, s.Replacement t req b n →
      (TellsPriority (s.replaceEvents t) b
          (b.replace req.origOrderId req.newPrice req.newQty).book n.order ↔
        (req.newPrice = n.order.price → n.order.leavesQty ≤ req.newQty → b.IsLast n.order))) ∧
      (RunTo cfg Ranked as s → s.tasks = [] → ∀ sym b, s.engine.books.lookup sym = some b →
        ∀ side p, (levelQueues s.gateway.publisher).queueOf
          ⟨sym, MarketDataPublisher.packetSide side, p⟩ = b.queue side p) :=
  ⟨fun _ _ _ _ hreplace => tells_priority_iff h hreplace,
    fun hranked ht _ _ hb side p => queues_are_kept hranked ht hb side p⟩

instance (s : System) (a : Action) : Decidable (s.TakesNothing a) :=
  match a with
  | .engine => decidable_of_iff (s.tasks ≠ []) (by simp [TakesNothing])
  | .message _ _ | .logon _ | .handle | .persist | .registerSymbol _ =>
    isTrue fun h => absurd h (by simp)

/-- A replace that has been carried out. -/
lemma exists_replacement {req : ReplaceRequest} {acts : List Action}
    {P : System → OrderBook → Node → Prop} (ht : s.tasks = [])
    (hq : s.queue.head? = some (.replace req))
    (h : ∃ b ∈ s.engine.books.lookup req.symbol, ∃ n ∈ b.nodes,
      n.order.exchangeId = req.origOrderId ∧
      (∃ m ∈ (b.replace req.origOrderId req.newPrice req.newQty).book.nodes,
        m.order.exchangeId = req.origOrderId) ∧
      ∃ s₁ ∈ s.step .engine, Transition.Allowed step TakesNothing s₁ acts ∧
        ∃ t ∈ Transition.run step s₁ acts, t.tasks = [] ∧ P t b n) :
    ∃ t b n, s.Replacement t req b n ∧ P t b n := by
  obtain ⟨b, hb, n, hn, hid, hstays, s₁, hstep, hok, t, hrun, ht', hP⟩ := h
  exact ⟨t, b, n, ⟨ht, hq, hb, hn, hid, hstays, s₁, acts, hstep,
    Transition.reaches_of_run hrun hok, ht'⟩, hP⟩

/-- Two buy orders at one price, and a replace on its way that raises one of them to 7. -/
def raisingRun (replace : List Action) : List Action :=
  Sample.submit (Sample.limit "a" '1' 5 10) Sample.alice ++ Sample.engine 2
    ++ Sample.submit (Sample.limit "b" '1' 3 10) Sample.bob ++ Sample.engine 2 ++ replace

theorem feed_tells_priority_sample :
    ∃ s t req b n, RunTo Sample.config Ranked (raisingRun
        (Sample.forward (Sample.replace "c" "b" '1' 7 10) Sample.bob)) s ∧
      s.Replacement t req b n ∧
      TellsPriority (s.replaceEvents t) b
        (b.replace req.origOrderId req.newPrice req.newQty).book n.order ∧
      (levelQueues s.gateway.publisher).queueOf ⟨"X", '0', 10⟩ = b.queue '1' 10 := by
  have hreach : ∃ s, RunTo Sample.config Ranked (raisingRun
      (Sample.forward (Sample.replace "c" "b" '1' 7 10) Sample.bob)) s ∧ (s.tasks = [] ∧
        s.queue.head? = some (.replace ⟨"EXCH-2", "b", "c", "B", "X", '1', 10, 7⟩) ∧
        ∃ b ∈ s.engine.books.lookup "X", ∃ n ∈ b.nodes, n.order.exchangeId = "EXCH-2" ∧
          (∃ m ∈ (b.replace "EXCH-2" 10 7).book.nodes, m.order.exchangeId = "EXCH-2") ∧
          ∃ s₁ ∈ s.step .engine, Transition.Allowed step TakesNothing s₁ (Sample.engine 1) ∧
            ∃ t ∈ Transition.run step s₁ (Sample.engine 1), t.tasks = [] ∧ b.IsLast n.order) :=
    Transition.exists_reaches (by decide +kernel) (by decide +kernel)
  obtain ⟨s, hrun, ht, hq, h⟩ := hreach
  obtain ⟨t, b, n, hreplace, hlast⟩ :=
    exists_replacement (P := fun _ b n => b.IsLast n.order) ht hq h
  obtain ⟨hiff, hqueues⟩ := feed_tells_priority (hrun.mono fun _ _ h => h.fed.followed.positive)
  exact ⟨s, t, _, b, n, hrun, hreplace, (hiff t _ b n hreplace).mpr fun _ _ => hlast,
    hqueues hrun ht "X" b hreplace.book '1' 10⟩

/-- The replace is announced as one in place, and the subscriber has not moved the order. -/
def Misplaced (s t : System) (b : OrderBook) (n : Node) : Prop :=
  n.order.side = '1' ∧ n.order.price = 10 ∧ s.replaceEvents t = [.ReplaceInPlace] ∧
    b.queue '1' 10 = ["EXCH-1", "EXCH-2"] ∧
    (b.replace "EXCH-1" 10 7).book.queue '1' 10 = ["EXCH-2", "EXCH-1"] ∧
    (levelQueues t.gateway.publisher).queueOf ⟨"X", '0', 10⟩ = ["EXCH-1", "EXCH-2"]

instance (s t : System) (b : OrderBook) (n : Node) : Decidable (Misplaced s t b n) := by
  unfold Misplaced; infer_instance

/-- The first one of two orders is raised: the feed says that it keeps its place, and it does
not. -/
theorem raised_in_place :
    ∃ s t req b n, RunTo Sample.config Fed (raisingRun
        (Sample.forward (Sample.replace "c" "a" '1' 7 10) Sample.alice)) s ∧
      s.Replacement t req b n ∧ s.replaceEvents t = [.ReplaceInPlace] ∧
      b.SentBack (b.replace req.origOrderId req.newPrice req.newQty).book n.order ∧
      (b.replace req.origOrderId req.newPrice req.newQty).book.queue '1' 10
        = ["EXCH-2", "EXCH-1"] ∧
      (levelQueues t.gateway.publisher).queueOf ⟨"X", '0', 10⟩ = ["EXCH-1", "EXCH-2"] := by
  have hreach : ∃ s, RunTo Sample.config Fed (raisingRun
      (Sample.forward (Sample.replace "c" "a" '1' 7 10) Sample.alice)) s ∧ (s.tasks = [] ∧
        s.queue.head? = some (.replace ⟨"EXCH-1", "a", "c", "A", "X", '1', 10, 7⟩) ∧
        ∃ b ∈ s.engine.books.lookup "X", ∃ n ∈ b.nodes, n.order.exchangeId = "EXCH-1" ∧
          (∃ m ∈ (b.replace "EXCH-1" 10 7).book.nodes, m.order.exchangeId = "EXCH-1") ∧
          ∃ s₁ ∈ s.step .engine, Transition.Allowed step TakesNothing s₁ (Sample.engine 1) ∧
            ∃ t ∈ Transition.run step s₁ (Sample.engine 1), t.tasks = [] ∧ Misplaced s t b n) :=
    Transition.exists_reaches (by decide +kernel) (by decide +kernel)
  obtain ⟨s, hrun, ht, hq, h⟩ := hreach
  obtain ⟨t, b, n, hreplace, hside, hprice, hevents, hqueue, hqueue', hfeed⟩ :=
    exists_replacement (P := Misplaced s) ht hq h
  refine ⟨s, t, _, b, n, hrun, hreplace, hevents, ⟨fun hkeeps => ?_, 10, ?_⟩, hqueue', hfeed⟩
  · have hplace := hkeeps.2
    rw [hside, hprice, hqueue, hreplace.id] at hplace
    dsimp only at hplace
    rw [hqueue'] at hplace
    exact absurd hplace (by decide)
  · rw [hside, hreplace.id]
    dsimp only
    rw [hqueue']
    rfl

end System

end FixExchange
